import ReviewDiff.Change.Synthesis
import ReviewDiff.Client.Backend
import ReviewDiff.Glob
import ReviewDiff.Path
import ReviewDiff.Perforce.Service

/-!
# Perforce workspaces

Perforce cannot print a diff that a patch program reads.  A client for Perforce
lists the files of a range, leaves out those that the caller does not want, and
makes the diff from the content of each file: revisions are printed by the server,
and pending content comes from the workspace or from the shelf.
-/

namespace ReviewDiff.Perforce

abbrev surroundings : Interface :=
  Service.interface.both Host.interface

abbrev Query (α : Type) := Attempt surroundings α

def consult (request : Service.Request) : Query request.Result :=
  Attempt.ofOutcome .perforce
    (Program.first (I := Service.interface) (J := Host.interface) request)

def consultHost (request : Host.Request) : Program surroundings request.Answer :=
  Program.second (I := Service.interface) (J := Host.interface) request

structure Workspace where
  directory : String
  patchProgram : String := "patch"

/-! ## The files of a range -/

def FileRecord.changedFile (file : FileRecord) : Change.ChangedFile where
  path := file.path
  revision := file.revision
  action := .ofName file.action
  change := file.change

/-- Whether the content of a pending changelist lies on the server. -/
def isShelved (change : String) : Query Bool := do
  if change = defaultChangelist then return false
  match ← consult (.change change) with
  | some info => return info.status = .shelved
  | none => return false

def describeAll : List String → Query (List FileRecord)
  | [] => return []
  | change :: rest => do
      let files : List FileRecord ← consult (.describe change)
      let others ← describeAll rest
      return files ++ others

/-- The submitted changelists of a range.  A range that was made from its tip
alone holds nothing else. -/
def submittedChanges (range : RevisionRange) (base tip : String) : Query (List String) := do
  if range.commitId = some tip then return [tip]
  let after ← Attempt.ofExcept (parseChange base)
  let through ← Attempt.ofExcept (parseChange tip)
  consult (.submittedChanges after through)

/-- The files of a range, and whether their content is shelved. -/
def filesOf (range : RevisionRange) : Query (List Change.ChangedFile × Bool) := do
  match range.base, range.tip with
  | .currentSync, .pending change =>
      let shelved ← isShelved change
      let files ←
        if shelved then consult (.describeShelved change) else consult (.opened change)
      return (files.map FileRecord.changedFile, shelved)
  | .concrete base, .concrete tip =>
      let changes ← submittedChanges range base tip
      let files ← describeAll changes
      return (files.map FileRecord.changedFile, false)
  | base, tip =>
      throw
        (.invalidRevisionSpec s!"cannot diff from {base.display} to {tip.display} in Perforce")

/-! ## Filters -/

def isDepotPath (name : String) : Bool :=
  Text.startsWith "//" name

/-- Whether a pattern is relative to the root of the workspace. -/
def isRootRelative (pattern : String) : Bool :=
  Text.startsWith "/" pattern && !isDepotPath pattern

def clientRoot : Query (Option String) := do
  return (← consult .info).clientRoot

namespace Workspace

/-- A pattern made comparable with paths in the depot and absolute paths in the
workspace. -/
def normalizePattern (workspace : Workspace) (root pattern : String) : String :=
  if isDepotPath pattern then pattern
  else
    match Text.after? "/" pattern with
    | some rest => Path.join root rest
    | none => Path.join workspace.directory pattern

/-- Patterns made comparable with paths in the depot and absolute paths in the
workspace.  The server is asked for the root of the workspace when a pattern is
relative to it. -/
def normalizePatterns (workspace : Workspace) (patterns : List String) :
    Query (List String) := do
  let root ← if patterns.any isRootRelative then clientRoot else pure none
  let root := root.getD "/"
  return patterns.map (workspace.normalizePattern root)

/-- The name of a file that is to be shown, made comparable in the same way. -/
def normalizeName (workspace : Workspace) (name : String) : String :=
  if isDepotPath name then name else Path.join workspace.directory name

end Workspace

/-- Which files are shown.  An empty list of names leaves nothing out. -/
structure Filter where
  names : List String
  excluded : List Glob.Pattern

def Filter.keeps (filter : Filter) (names : List String) : Bool :=
  (filter.names.isEmpty || names.any (filter.names.contains ·)) &&
    !names.any fun name => filter.excluded.any (·.accepts name)

/-- The files that a filter keeps, each known by its path in the depot and its
path in the workspace. -/
def Filter.select (filter : Filter) : List Change.ChangedFile → Query (List Change.ChangedFile)
  | [] => return []
  | file :: rest => do
      let localPath ← consult (.localPath file.path)
      let others ← filter.select rest
      return if filter.keeps (file.path :: localPath.toList) then file :: others else others

def Workspace.select
    (workspace : Workspace) (options : DiffOptions) (files : List Change.ChangedFile) :
    Query (List Change.ChangedFile) := do
  if options.includeFiles.isEmpty && options.excludePatterns.isEmpty then return files
  let patterns ← workspace.normalizePatterns options.excludePatterns
  let filter : Filter :=
    { names := options.includeFiles.map workspace.normalizeName
      excluded := patterns.map Glob.Pattern.ofText }
  filter.select files

/-! ## Contents -/

def printed (spec : String) : Query Bytes := do
  match ← consult (.print spec) with
  | some content => return content
  | none => throw (.io (.os Host.notFound))

def workspaceContent (path : String) : Query Bytes := do
  match ← consult (.localPath path) with
  | some name => Attempt.ofOutcome .io (consultHost (.contents name))
  | none => throw (.command ("p4 where " ++ path) "file is not mapped in this client")

def content (shelved : Bool) (path : String) : Change.Version → Query Bytes
  | .numbered revision => printed s!"{path}#{revision}"
  | .pending change => if shelved then printed s!"{path}@={change}" else workspaceContent path

/-- Answers what a diff needs to know about files. -/
def keep (shelved : Bool) :
    (request : Change.Snapshots.Request) → Program surroundings request.Answer
  | .content path version => (content shelved path version).outcome
  | .localPath path => (consult (.localPath path)).outcome
  | .moveTarget path =>
      (do return (← consult (.fileInfo path)).movedFile : Query (Option String)).outcome

/-! ## Operations -/

def Workspace.diff
    (workspace : Workspace) (capabilities : Option Capabilities) (range : RevisionRange)
    (options : DiffOptions) : Query DiffResult := do
  let (files, shelved) ← filesOf range
  let files ← workspace.select options files
  let detectMoves := !options.noRenames && capabilities.any (·.has Capabilities.movedFiles)
  let time ← Attempt.ofProgram (consultHost .now)
  let scratch := consultHost .temporaryDirectory
  Change.synthesizeIn (keep shelved) scratch time.stamp range files detectMoves

def statusOf (change : String) : Query (Option ChangeStatus) := do
  return (← consult (.change change)).map (·.status)

/-- The changelist that holds the description of a range. -/
def describedChange? : RevisionId → Option String
  | .pending change => if change = defaultChangelist then none else some change
  | .concrete change => some change
  | .currentSync | .workingCopy => none

def message (range : RevisionRange) : Query String := do
  match describedChange? range.tip with
  | none => return ""
  | some change => return ((← consult (.change change)).map (·.description)).getD ""

/-- The number of the changelist that a range is: a pending one that has a number.
-/
def changeNumber (range : RevisionRange) : Option String :=
  match range.tip with
  | .pending change => if change = defaultChangelist then none else some change
  | _ => none

/-- The addresses of a server, the encrypted one first. -/
def serverPaths (address : String) (encrypted : Bool) : List String :=
  if encrypted then ["ssl:" ++ address, address] else [address]

namespace Workspace

/-- The root of the workspace, if the directory lies in it. -/
def localPath (workspace : Workspace) : Query (Option String) := do
  return (← clientRoot).filter (Path.isWithin · workspace.directory)

def repositoryInfo (workspace : Workspace) : Query (Option RepositoryInfo) := do
  let info ← consult .info
  match info.clientRoot.filter (Path.isWithin · workspace.directory), info.connection? with
  | some root, some (address, encrypted) =>
      return some { path := serverPaths address encrypted, localPath := some root }
  | _, _ => return none

end Workspace

/-! ## Counters -/

def repositoryNameCounter : String := "reviewboard.repository_name"

def serverUrlCounter : String := "reviewboard.url"

def least? : List String → Option String
  | [] => none
  | text :: rest =>
      match least? rest with
      | some other => some (if other < text then other else text)
      | none => some text

/-- The address that is part of the name of a counter, where `|` stands for the
slash that no name can hold. -/
def serverUrlInName? (counters : List (String × String)) : Option String :=
  (least?
      ((counters.map (·.1)).filter
        (Text.startsWith (serverUrlCounter ++ ".")))).bind fun name =>
    (Text.after? (serverUrlCounter ++ ".") name).map (Text.replaceChar '|' '/')

def repositoryName : Query (Option String) := do
  return (← consult .counters).lookup repositoryNameCounter

def serverUrl : Query (Option String) := do
  let counters ← consult .counters
  return counters.lookup serverUrlCounter <|> serverUrlInName? counters

def serverVersion : Query (Option ServerVersion) := do
  match (← consult .info).serverVersion with
  | none => return none
  | some banner =>
      match ServerVersion.read? banner with
      | some version => return some version
      | none => throw (.command "p4 info" (ServerVersion.unreadable banner))

/-! ## Empty files -/

namespace Workspace

/-- The path of the file that a header names, and what to do with it. -/
def target
    (workspace : Workspace) (stripCount : Nat) (revert : Bool)
    (header : Patch.EmptyFile.Header) :
    Patch.EmptyFile.Operation × String :=
  (if revert then header.operation.reversed else header.operation,
    Path.join workspace.directory (Patch.strip header.localPath stripCount))

def targets
    (workspace : Workspace) (stripCount : Nat) (revert : Bool)
    (operation : Patch.EmptyFile.Operation) (patch : Bytes) : List String :=
  ((Patch.EmptyFile.readHeaders patch).map (workspace.target stripCount revert)).filterMap
    fun (found, path) => if found = operation then some path else none

end Workspace

/-- Creates empty files and the directories that they lie in. -/
def createFiles : List String → Query Unit
  | [] => return ()
  | path :: rest => do
      match Path.parent? path with
      | some parent => Attempt.ofOutcome .io (consultHost (.createDirectories parent))
      | none => pure ()
      Attempt.ofOutcome .io (consultHost (.createFile path))
      createFiles rest

/-- Tells Perforce about files, if there are any, and whether that succeeded. -/
def announce (paths : List String) (request : Service.Request) : Query Bool := do
  if paths.isEmpty then return false
  match ← Attempt.ofProgram (consult request).outcome with
  | .ok _ => return true
  | .error _ => return false

def Workspace.applyEmptyFiles
    (workspace : Workspace) (patch : Bytes) (stripCount : Option Nat) (revert : Bool) :
    Query Bool := do
  let count := stripCount.getD 0
  let added := workspace.targets count revert .added patch
  let deleted := workspace.targets count revert .deleted patch
  createFiles added
  let addedAny ← announce added (.add added)
  let deletedAny ← announce deleted (.delete deleted)
  return addedAny || deletedAny

/-! ## The client -/

def checkTools : Query Unit := do
  match ← Attempt.ofProgram (consult .checkInstalled).outcome with
  | .ok _ => return ()
  | .error (.perforce failure) => throw (.dependency "Perforce" failure.message)
  | .error failure => throw failure

def features : Features where
  changesets := true
  diffExcludePatterns := true
  noRenames := true
  patchRevert := true

namespace Workspace

def provide (workspace : Workspace) (capabilities : Option Capabilities) :
    (operation : Operation) → Option (Query operation.Result)
  | .localPath => some workspace.localPath
  | .repositoryInfo => some workspace.repositoryInfo
  | .repositoryName => some repositoryName
  | .serverUrl => some serverUrl
  | .pendingChanges => none
  | .resolve tokens => some (RevisionRange.ofTokens statusOf tokens)
  | .diff range options => some (workspace.diff capabilities range options)
  | .message range => some (message range)
  | .applyEmptyFiles patch stripCount revert =>
      some (workspace.applyEmptyFiles patch stripCount revert)

/-- Clients for Perforce workspaces.  An emptied file is removed, because the diff
gives both of its sides a name. -/
def backend (workspace : Workspace) : Backend surroundings where
  id := "perforce"
  name := "Perforce"
  features := features
  checkTools := checkTools
  applier :=
    { program := workspace.patchProgram, directory := workspace.directory
      removeEmptyFiles := true }
  host := consultHost
  provide := workspace.provide
  emptyFiles capabilities := capabilities.any (·.has Capabilities.emptyFiles)
  changeNumber := changeNumber

end Workspace

end ReviewDiff.Perforce

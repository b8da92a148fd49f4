import ReviewDiff.Client.Open
import ReviewDiff.CommandLine.Invocation
import ReviewDiff.Config.Document

/-!
# Running a command

The result of a call is what it prints and its exit code: 0 for success, 1 for a
failure that is reported, and 2 for arguments that make no sense.
-/

namespace ReviewDiff.CommandLine

structure Ending where
  exitCode : Nat
  stdout : Bytes := []
  stderr : String := ""
  deriving DecidableEq, Repr

/-- A failure for the user, with the failures behind it, nearest first. -/
structure Report where
  message : String
  causes : List String := []
  deriving DecidableEq, Repr

namespace Report

def ofFailure (failure : Failure) : Report :=
  ⟨failure.message, failure.causes⟩

/-- A text with its first line behind one indentation and its other lines behind
another. -/
def indent (first others : String) (text : String) : String :=
  first ++ String.intercalate ("\n" ++ others) (Text.split '\n' text)

/-- A number right behind blanks, five characters wide. -/
def rightAligned (n : Nat) : String :=
  let digits := toString n
  String.ofList (List.replicate (5 - digits.length) ' ') ++ digits

/-- The causes, numbered if there are several. -/
def causeLines (causes : List String) : List String :=
  match causes with
  | [cause] => [indent "    " "    " cause]
  | _ => causes.zipIdx.map fun (cause, n) => indent (rightAligned n ++ ": ") "       " cause

def render (report : Report) : String :=
  let causes :=
    if report.causes.isEmpty then [] else "" :: "Caused by:" :: causeLines report.causes
  String.intercalate "\n" (("Error: " ++ report.message) :: causes) ++ "\n"

end Report

/-- A task of the program, which may fail with a report. -/
abbrev Task (α : Type) := ExceptT Report (Program Host.interface) α

def attempt {α : Type} (action : Attempt Host.interface α) : Task α :=
  ExceptT.mk do return (← action.outcome).mapError Report.ofFailure

/-- What a command prints, and what it complains about at its end. -/
structure Printed where
  text : Bytes
  complaint : Option Report := none

def printLine (text : String) : Printed :=
  { text := Utf8.encode (text ++ "\n") }

/-! ## Commands -/

def configName : String := ".rbscm.toml"

def loadConfig (settings : Settings) (directory : String) : Task Config :=
  let path := settings.config.getD (Path.join directory configName)
  ExceptT.mk do return (← Config.load path).mapError fun failure => ⟨failure.message, []⟩

def loadCapabilities (settings : Settings) : Task (Option Capabilities) :=
  match settings.capabilities with
  | none => return none
  | some path => ExceptT.mk do
    match ← Capabilities.load path with
    | .ok capabilities => return .ok (some capabilities)
    | .error failure =>
        return .error ⟨"could not load capabilities from " ++ path, [failure.message]⟩

def openClient (settings : Settings) (directory : String) : Task (Client Host.interface) := do
  let config ← loadConfig settings directory
  let client ← attempt (Client.ofKind (settings.kind.getD config.kind) config directory)
  let capabilities ← loadCapabilities settings
  return { client with capabilities }

/-- Prints a diff, or a JSON object with the diff in it. -/
def printDiff
    (client : Client Host.interface) (tokens : List String) (options : DiffOptions)
    (json : Bool) :
    Task Printed := do
  let range ← attempt (client.perform (.resolve tokens))
  let result : DiffResult ← attempt (client.perform (.diff range options))
  return if json then printLine result.json.pretty else { text := result.diff }

def printRange (client : Client Host.interface) (tokens : List String) : Task Printed := do
  let range : RevisionRange ← attempt (client.perform (.resolve tokens))
  return printLine range.json.pretty

def notApplied (outcome : Patch.Outcome) : Report :=
  let rejected :=
    if outcome.rejectedFiles.isEmpty then ""
    else "; rejected: " ++ String.intercalate ", " outcome.rejectedFiles
  ⟨"the patch did not apply cleanly" ++ rejected, []⟩

def readPatch (file : String) : Task Bytes :=
  ExceptT.mk do
    match ← Program.request (I := Host.interface) (.contents file) with
    | .ok contents => return .ok contents
    | .error fault => return .error ⟨"could not read " ++ file, [fault.message]⟩

/-- Applies a patch and prints what the patch program said. -/
def applyPatch (client : Client Host.interface) (request : Patch.Request) : Task Printed := do
  let outcome ← attempt (client.applyPatch request)
  let complaint := if outcome.applied then none else some (notApplied outcome)
  return { text := Utf8.encode outcome.output, complaint }

def textOrNull (text : Option String) : Json.Value :=
  (text.map Json.Value.text).getD .null

def printInfo (client : Client Host.interface) : Task Printed := do
  let localPath : Option String ← attempt (client.perform .localPath)
  let repository : Option RepositoryInfo ← attempt (client.perform .repositoryInfo)
  let name : Option String ← attempt (client.perform .repositoryName)
  let server : Option String ← attempt (client.perform .serverUrl)
  let value : Json.Value := .record
    [("client", .text client.backend.id), ("features", client.backend.features.json),
      ("local_path", textOrNull localPath),
      ("repository", (repository.map RepositoryInfo.json).getD .null),
      ("repository_name", textOrNull name), ("server", textOrNull server)]
  return printLine value.sorted.pretty

def Command.run (client : Client Host.interface) : Command → Task Printed
  | .diff tokens options json => printDiff client tokens options json
  | .revisions tokens => printRange client tokens
  | .patch file stripCount revert basePath baseDir => do
      let diff ← readPatch file
      applyPatch client { diff, basePath, baseDir, stripCount, revert }
  | .info => printInfo client

/-! ## Calls -/

def Ending.ofTask : Except Report Printed → Ending
  | .ok printed =>
      match printed.complaint with
      | none => { exitCode := 0, stdout := printed.text }
      | some report => { exitCode := 1, stdout := printed.text, stderr := report.render }
  | .error report => { exitCode := 1, stderr := report.render }

def Invocation.run (invocation : Invocation) (directory : String) :
    Program Host.interface Ending := do
  let task : Task Printed := do
    let client ← openClient invocation.settings directory
    invocation.command.run client
  return .ofTask (← task.run)

def programName : String := "rbscm"

def programVersion : String := "0.1.0"

/-- The summary of how the program is called. -/
def usage : String :=
  "Usage: " ++ programName ++ " [OPTIONS] <diff|revisions|patch|info> [ARGUMENTS]\n"

def Refusal.ending (refusal : Refusal) : Ending :=
  match refusal.stop with
  | .usage => { exitCode := 2, stderr := usage }
  | .help => { exitCode := 0, stdout := Utf8.encode usage }
  | .version =>
      let name := String.intercalate "-" (programName :: refusal.command.toList)
      { exitCode := 0, stdout := Utf8.encode (name ++ " " ++ programVersion ++ "\n") }

/-- Runs the program with its arguments in a directory, given the value of the
variable `kindVariable`. -/
def run (fromEnvironment : Option String) (arguments : List String) (directory : String) :
    Program Host.interface Ending :=
  match Invocation.read fromEnvironment arguments with
  | .ok invocation => invocation.run directory
  | .error refusal => return refusal.ending

end ReviewDiff.CommandLine

import ReviewDiff.Client.Backend
import ReviewDiff.Text.Cut

/-!
# Git working trees

Git prints diffs that a patch program reads, so a client for git names the right
revisions and hands the wishes of its caller on to `git diff`.  With a parent
branch the diff starts at that branch, and a second diff covers what lies between
the base of the range and the branch.
-/

namespace ReviewDiff.Git

/-- A working tree and how git is run in it. -/
structure WorkingTree where
  directory : String
  program : String := "git"
  parentBranch : Option String := none
  patchProgram : String := "patch"

abbrev Query (α : Type) := Attempt Host.interface α

def ask (request : Host.Request) : Program Host.interface request.Answer :=
  Program.request (I := Host.interface) request

namespace WorkingTree

/-! ## Running git -/

def failed (tree : WorkingTree) (arguments : List String) (output : String) : Failure :=
  .command (Host.commandLine tree.program arguments) output

def run (tree : WorkingTree) (arguments : List String) : Query Host.Completed := do
  match ← ExceptT.lift (ask (.run tree.program arguments (some tree.directory))) with
  | .ok completed => return completed
  | .error fault => throw (tree.failed arguments fault.message)

def succeed (tree : WorkingTree) (arguments : List String) : Query Host.Completed := do
  let completed ← tree.run arguments
  if completed.succeeded then return completed
  throw (tree.failed arguments completed.output)

end WorkingTree

def trimmedOutput (completed : Host.Completed) : String :=
  Text.trim (Utf8.decodeLossy completed.stdout)

/-- What a command printed, if it succeeded and printed anything. -/
def answer? (completed : Host.Completed) : Option String :=
  if completed.succeeded && trimmedOutput completed ≠ "" then some (trimmedOutput completed)
  else none

namespace WorkingTree

/-! ## Revisions -/

def commit (tree : WorkingTree) (revision : String) : Query String := do
  let completed ← tree.run ["rev-parse", "--verify", "--quiet", revision ++ "^\x7bcommit\x7d"]
  if completed.succeeded then return trimmedOutput completed
  throw (.invalidRevisionSpec s!"'{revision}' is not a valid git revision")

/-- The end of a range that a token names; the empty token stands for the current
commit. -/
def orHead (token : String) : String :=
  if token = "" then "HEAD" else token

def between (tree : WorkingTree) (base tip : String) : Query RevisionRange := do
  let base ← tree.commit base
  let tip ← tree.commit tip
  return { base := .concrete base, tip := .concrete tip }

/-- The range that tokens name, whatever the parent branch. -/
def rangeOf (tree : WorkingTree) : List String → Query RevisionRange
  | [] => do
      let base ← tree.commit "HEAD"
      return { base := .concrete base, tip := .workingCopy }
  | [token] =>
      match Text.cut? ".." token with
      | some (base, tip) => tree.between (orHead base) (orHead tip)
      | none => do
          let tip ← tree.commit token
          let base ← tree.commit (tip ++ "^")
          return { base := .concrete base, tip := .concrete tip, commitId := some tip }
  | [base, tip] => tree.between base tip
  | _ => throw .tooManyRevisions

end WorkingTree

/-- The range with its base moved to a commit of the parent branch. -/
def withParent (range : RevisionRange) (parent : String) : RevisionRange :=
  if range.base = .concrete parent then range
  else { range with base := .concrete parent, parentBase := some range.base }

namespace WorkingTree

def resolve (tree : WorkingTree) (tokens : List String) : Query RevisionRange := do
  let range ← tree.rangeOf tokens
  match tree.parentBranch with
  | some branch => return withParent range (← tree.commit branch)
  | none => return range

end WorkingTree

/-- The commit at an end of a range; the working tree has none. -/
def commitAt (revision : RevisionId) : Except Failure (Option String) :=
  match revision with
  | .concrete id => .ok (some id)
  | .workingCopy => .ok none
  | .currentSync | .pending _ =>
      .error (.invalidRevisionSpec (revision.display ++ " is not a git revision"))

def baseCommit (revision : RevisionId) : Except Failure String := do
  match ← commitAt revision with
  | some base => .ok base
  | none => .error (.invalidRevisionSpec "the working tree cannot be a diff base")

/-! ## Diffs -/

def diffArguments (options : DiffOptions) (base : String) (tip : Option String) :
    List String :=
  ["diff", "--no-color", "--no-ext-diff", "--full-index", "--ignore-submodules",
      if options.noRenames then "--no-renames" else "-M"] ++
    options.extraArguments ++ [base] ++ tip.toList ++ ["--"] ++ options.includeFiles ++
    options.excludePatterns.map (":(exclude)" ++ ·)

namespace WorkingTree

/-- The diff from a commit to another one or to the working tree. -/
def diffBetween
    (tree : WorkingTree) (options : DiffOptions) (base : String) (tip : Option String) :
    Query Bytes := do
  return (← tree.succeed (diffArguments options base tip)).stdout

def diff (tree : WorkingTree) (range : RevisionRange) (options : DiffOptions) :
    Query DiffResult := do
  let base ← Attempt.ofExcept (baseCommit range.base)
  let tip ← Attempt.ofExcept (commitAt range.tip)
  let diff ← tree.diffBetween options base tip
  let parentBase ← match range.parentBase with
    | some revision => Attempt.ofExcept (commitAt revision)
    | none => pure none
  let parentDiff ← match parentBase with
    | some parentBase => some <$> tree.diffBetween options parentBase (some base)
    | none => pure none
  return { diff, parentDiff, commitId := range.commitId, baseCommitId := some base }

/-- The messages of the commits in a range; a range that ends in the working tree
has none. -/
def message (tree : WorkingTree) (range : RevisionRange) : Query String := do
  match ← Attempt.ofExcept (commitAt range.base) with
  | none =>
      let _ ← Attempt.ofExcept (commitAt range.tip)
      return ""
  | some base =>
      match ← Attempt.ofExcept (commitAt range.tip) with
      | none => return ""
      | some tip =>
          return trimmedOutput
            (← tree.succeed ["log", "--reverse", "--format=%B", base ++ ".." ++ tip])

/-! ## The repository -/

def localPath (tree : WorkingTree) : Query (Option String) := do
  return answer? (← tree.run ["rev-parse", "--show-toplevel"])

def repositoryInfo (tree : WorkingTree) : Query (Option RepositoryInfo) := do
  match ← tree.localPath with
  | none => return none
  | some root =>
      let remote := answer? (← tree.run ["config", "--get", "remote.origin.url"])
      let inner := trimmedOutput (← tree.succeed ["rev-parse", "--show-prefix"])
      return some
        { path := [remote.getD root], basePath := some ("/" ++ inner), localPath := some root }

def serverUrl (tree : WorkingTree) : Query (Option String) := do
  return answer? (← tree.run ["config", "--get", "reviewboard.url"])

def pendingChanges (tree : WorkingTree) : Query Bool := do
  return trimmedOutput (← tree.succeed ["status", "--porcelain", "--untracked-files=no"]) ≠ ""

def checkTools (tree : WorkingTree) : Query Unit := do
  match ← ExceptT.lift (ask (.run tree.program ["--version"] none)) with
  | .error fault =>
      throw (.dependency "Git" ("could not run '" ++ tree.program ++ "': " ++ fault.message))
  | .ok completed =>
      if completed.succeeded then return () else throw (.dependency "Git" completed.output)

/-! ## The client -/

def provide (tree : WorkingTree) : (operation : Operation) → Option (Query operation.Result)
  | .localPath => some tree.localPath
  | .repositoryInfo => some tree.repositoryInfo
  | .repositoryName => none
  | .serverUrl => some tree.serverUrl
  | .pendingChanges => some tree.pendingChanges
  | .resolve tokens => some (tree.resolve tokens)
  | .diff range options => some (tree.diff range options)
  | .message range => some (tree.message range)
  | .applyEmptyFiles .. => none

end WorkingTree

def features : Features where
  commitHistory := true
  diffExtraArguments := true
  diffExcludePatterns := true
  noRenames := true
  parentDiffs := true
  patchRevert := true

def WorkingTree.backend (tree : WorkingTree) : Backend Host.interface where
  id := "git"
  name := "Git"
  features := features
  checkTools := tree.checkTools
  applier := { program := tree.patchProgram, directory := tree.directory }
  host := ask
  provide _ := tree.provide

end ReviewDiff.Git

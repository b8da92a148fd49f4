import ReviewDiff.Change.DiffResult
import ReviewDiff.Failure
import ReviewDiff.Revision
import ReviewDiff.Text.Blank
import ReviewDiff.Text.Line

/-!
# What can be asked of a client

An `Operation` needs a client that is set up.  Kinds of clients differ in which
operations they provide; two operations have a neutral answer for the other
clients.
-/

namespace ReviewDiff

/-- Where a working copy lives and how the review server may call it. -/
structure RepositoryInfo where
  path : List String
  basePath : Option String := none
  localPath : Option String := none
  deriving DecidableEq, Repr

def RepositoryInfo.json (info : RepositoryInfo) : Json.Value :=
  .record (("path", .list (info.path.map .text)) ::
    (Json.optionalField "base_path" (info.basePath.map .text) ++
      Json.optionalField "local_path" (info.localPath.map .text)))

structure CommitMessage where
  summary : String
  description : String
  deriving DecidableEq, Repr

/-- Splits a message; a message without lines is none. -/
def CommitMessage.ofText? (text : String) : Option CommitMessage :=
  match Text.lines text with
  | [] => none
  | summary :: rest => some ⟨summary, Text.trim (String.intercalate "\n" rest)⟩

/-- What can be asked of a client that is set up. -/
inductive Operation where
  | localPath
  | repositoryInfo
  | repositoryName
  | serverUrl
  | pendingChanges
  | resolve (tokens : List String)
  | diff (range : RevisionRange) (options : DiffOptions)
  | message (range : RevisionRange)
  | applyEmptyFiles (patch : Bytes) (stripCount : Option Nat) (revert : Bool)

namespace Operation

def Result : Operation → Type
  | localPath => Option String
  | repositoryInfo => Option RepositoryInfo
  | repositoryName => Option String
  | serverUrl => Option String
  | pendingChanges => Bool
  | resolve _ => RevisionRange
  | diff .. => DiffResult
  | message _ => String
  | applyEmptyFiles .. => Bool

def name : Operation → String
  | localPath => "get_local_path"
  | repositoryInfo => "get_repository_info"
  | repositoryName => "get_repository_name"
  | serverUrl => "scan_for_server"
  | pendingChanges => "has_pending_changes"
  | resolve _ => "parse_revision_spec"
  | diff .. => "diff"
  | message _ => "get_raw_commit_message"
  | applyEmptyFiles .. => "apply_patch_for_empty_files"

/-- The result for a client that does not provide an operation, where that is no
failure. -/
def neutral? : (operation : Operation) → Option operation.Result
  | repositoryName => some (none : Option String)
  | serverUrl => some (none : Option String)
  | localPath | repositoryInfo | pendingChanges | resolve _ | diff .. | message _
  | applyEmptyFiles .. =>
      none

end Operation

end ReviewDiff

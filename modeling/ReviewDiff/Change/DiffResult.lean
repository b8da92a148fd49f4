import ReviewDiff.Json.Printer
import ReviewDiff.Text.Utf8

/-!
# The result of a diff and what a caller may ask for
-/

namespace ReviewDiff

/-- The diff of a range. -/
structure DiffResult where
  diff : Bytes
  parentDiff : Option Bytes := none
  commitId : Option String := none
  baseCommitId : Option String := none
  extraData : Option (List (String × Json.Value)) := none

/-- The result as a JSON value.  Diffs are read as UTF-8, and extra data is in the
order of its keys. -/
def DiffResult.json (result : DiffResult) : Json.Value :=
  .record <|
    ("diff", .text (Utf8.decodeLossy result.diff)) ::
      (Json.optionalField "parent_diff"
          (result.parentDiff.map fun diff => .text (Utf8.decodeLossy diff)) ++
        Json.optionalField "commit_id" (result.commitId.map .text) ++
        Json.optionalField "base_commit_id" (result.baseCommitId.map .text) ++
        Json.optionalField "extra_data"
          (result.extraData.map fun fields => (Json.Value.record fields).sorted))

/-- What a caller may ask for.  An empty list of files to include leaves nothing
out. -/
structure DiffOptions where
  includeFiles : List String := []
  excludePatterns : List String := []
  noRenames : Bool := false
  extraArguments : List String := []
  deriving DecidableEq, Repr

end ReviewDiff

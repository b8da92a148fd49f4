import ReviewDiff.Json.Value

/-!
# What a client supports
-/

namespace ReviewDiff

/-- What a client supports, whatever repository it works on. -/
structure Features where
  changesets : Bool := false
  commitHistory : Bool := false
  diffExtraArguments : Bool := false
  diffExcludePatterns : Bool := false
  noRenames : Bool := false
  parentDiffs : Bool := false
  patchRevert : Bool := false
  amendCommit : Bool := false
  merge : Bool := false
  pushChanges : Bool := false
  deleteBranch : Bool := false
  createBranch : Bool := false
  bookmark : Bool := false
  squashMerges : Bool := false
  deriving DecidableEq, Repr

namespace Features

def named (features : Features) : List (String × Bool) :=
  [("supports_changesets", features.changesets),
    ("supports_commit_history", features.commitHistory),
    ("supports_diff_extra_args", features.diffExtraArguments),
    ("supports_diff_exclude_patterns", features.diffExcludePatterns),
    ("supports_no_renames", features.noRenames),
    ("supports_parent_diffs", features.parentDiffs),
    ("supports_patch_revert", features.patchRevert),
    ("can_amend_commit", features.amendCommit),
    ("can_merge", features.merge),
    ("can_push_upstream", features.pushChanges),
    ("can_delete_branch", features.deleteBranch),
    ("can_branch", features.createBranch),
    ("can_bookmark", features.bookmark),
    ("can_squash_merges", features.squashMerges)]

def json (features : Features) : Json.Value :=
  .record (features.named.map fun (name, value) => (name, .bool value))

end Features

end ReviewDiff

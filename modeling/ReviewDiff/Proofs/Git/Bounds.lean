import ReviewDiff.Git
import ReviewDiff.Proofs.Revision

/-!
# What the operations of a working tree ask

Operations of a working tree run programs in the tree only, and they fail
because a program failed or because a revision is not known.  Tokens name only
ranges between commits, or from a commit to the working tree, and the diff of
such a range is never refused.
-/

namespace ReviewDiff.Git

/-- What operations of a working tree ask: they run no program elsewhere. -/
def Routine : Host.Request → Prop
  | .run _ _ directory => directory ≠ none
  | _ => True

/-! ## Ranges between commits -/

/-- The revision is a commit. -/
def IsCommit (revision : RevisionId) : Prop :=
  ∃ id, revision = .concrete id

/-- The ends of the range are commits, and at its tip there may be the working
tree. -/
structure Ranges (range : RevisionRange) : Prop where
  base : IsCommit range.base
  tip : IsCommit range.tip ∨ range.tip = .workingCopy
  parentBase : ∀ revision ∈ range.parentBase, IsCommit revision

theorem Ranges.withParent {range : RevisionRange} (ranges : Ranges range) (parent : String) :
    Ranges (withParent range parent) := by
  unfold Git.withParent
  split
  · exact ranges
  · refine ⟨⟨parent, rfl⟩, ranges.tip, ?_⟩
    rintro _ ⟨⟩
    exact ranges.base

/-! ## Commands -/

namespace WorkingTree

variable (tree : WorkingTree)

theorem within_run (arguments : List String) :
    (tree.run arguments).Within Routine (fun _ => True) (¬ ·.AboutRevisions) := by
  have asked :
      (ask (.run tree.program arguments (some tree.directory))).Within Routine
        fun _ => True :=
    Program.within_request (I := Host.interface) nofun
  refine Attempt.within_lift_bind asked fun outcome => ?_
  split
  · exact Attempt.within_pure trivial
  · exact Attempt.within_throw not_false

theorem within_succeed (arguments : List String) :
    (tree.succeed arguments).Within Routine (fun _ => True) (¬ ·.AboutRevisions) := by
  refine (tree.within_run arguments).bind fun completed _ => ?_
  split
  · exact Attempt.within_pure trivial
  · exact Attempt.within_throw not_false

/-! ## Revisions -/

theorem within_commit (revision : String) :
    (tree.commit revision).Within Routine (fun _ => True) fun _ => True := by
  refine (tree.within_run _).anyEnd.bind fun completed _ => ?_
  split
  · exact Attempt.within_pure trivial
  · exact Attempt.within_throw trivial

theorem within_between (base tip : String) :
    (tree.between base tip).Within Routine
      (fun range => Ranges range ∧ range.parentBase = none) fun _ => True := by
  refine (tree.within_commit base).bind fun first _ => ?_
  refine (tree.within_commit tip).bind fun last _ => ?_
  exact Attempt.within_pure ⟨⟨⟨first, rfl⟩, Or.inl ⟨last, rfl⟩, nofun⟩, rfl⟩

theorem within_rangeOf (tokens : List String) :
    (tree.rangeOf tokens).Within Routine
      (fun range => Ranges range ∧ range.parentBase = none) fun _ => True := by
  unfold rangeOf
  split
  · refine (tree.within_commit "HEAD").bind fun base _ => ?_
    exact Attempt.within_pure ⟨⟨⟨base, rfl⟩, Or.inr rfl, nofun⟩, rfl⟩
  · split
    · exact tree.within_between _ _
    · refine (tree.within_commit _).bind fun tip _ => ?_
      refine (tree.within_commit _).bind fun base _ => ?_
      exact Attempt.within_pure ⟨⟨⟨base, rfl⟩, Or.inl ⟨tip, rfl⟩, nofun⟩, rfl⟩
  · exact tree.within_between _ _
  · exact Attempt.within_throw trivial

/-- Tokens name only ranges between commits and up to the working tree. -/
theorem within_resolve (tokens : List String) :
    (tree.resolve tokens).Within Routine Ranges fun _ => True := by
  refine (tree.within_rangeOf tokens).bind fun range ⟨ranges, _⟩ => ?_
  split
  · exact (tree.within_commit _).bind fun parent _ =>
      Attempt.within_pure (ranges.withParent parent)
  · exact Attempt.within_pure ranges

/-! ## Diffs -/

theorem within_diffBetween (options : DiffOptions) (base : String) (tip : Option String) :
    (tree.diffBetween options base tip).Within Routine (fun _ => True)
      (¬ ·.AboutRevisions) :=
  (tree.within_succeed _).bind fun _ _ => Attempt.within_pure trivial

/-- Commits are found at the ends where they stand. -/
theorem within_commitAt
    {revision : RevisionId} {fails : Failure → Prop}
    (refused : ¬ (IsCommit revision ∨ revision = .workingCopy) → ∀ failure, fails failure) :
    (Attempt.ofExcept (commitAt revision) : Query (Option String)).Within Routine
      (fun _ => True) fails := by
  apply Attempt.within_ofExcept
  cases revision with
  | concrete id => trivial
  | workingCopy => trivial
  | currentSync => exact refused (fun found => found.elim nofun nofun) _
  | pending change => exact refused (fun found => found.elim nofun nofun) _

/-- A diff starts at a commit. -/
theorem within_baseCommit
    {revision : RevisionId} {fails : Failure → Prop}
    (refused : ¬ IsCommit revision → ∀ failure, fails failure) :
    (Attempt.ofExcept (baseCommit revision) : Query String).Within Routine
      (fun _ => True) fails := by
  apply Attempt.within_ofExcept
  cases revision with
  | concrete id => trivial
  | workingCopy => exact refused nofun _
  | currentSync => exact refused nofun _
  | pending change => exact refused nofun _

/-- The diff of a range that tokens name is not refused. -/
theorem within_diff (range : RevisionRange) (options : DiffOptions) :
    (tree.diff range options).Within Routine (fun _ => True) (SparedBy (Ranges range)) := by
  have compared :
      ∀ base tip,
        (tree.diffBetween options base tip).Within Routine (fun _ => True)
          (SparedBy (Ranges range)) :=
    fun base tip => (tree.within_diffBetween options base tip).sparedBy _
  unfold diff
  refine (within_baseCommit fun noBase _ ranges => absurd ranges.base noBase).bind
    fun base _ => ?_
  refine (within_commitAt fun noTip _ ranges => absurd ranges.tip noTip).bind
    fun tip _ => ?_
  refine (compared base tip).bind fun diff _ => ?_
  cases parent : range.parentBase with
  | none => exact Attempt.within_pure trivial
  | some revision =>
      refine (within_commitAt ?_).bind fun parentBase _ => ?_
      · intro noParent failure ranges
        exact absurd (Or.inl (ranges.parentBase revision parent)) noParent
      · cases parentBase with
        | none => exact Attempt.within_pure trivial
        | some parentBase =>
            have mapped := Attempt.Within.map (compared parentBase (some base)) some
            exact mapped.bind fun _ _ => Attempt.within_pure trivial

/-! ## Other operations -/

theorem within_localPath :
    tree.localPath.Within Routine (fun _ => True) (¬ ·.AboutRevisions) :=
  (tree.within_run _).bind fun _ _ => Attempt.within_pure trivial

theorem within_repositoryInfo :
    tree.repositoryInfo.Within Routine (fun _ => True) (¬ ·.AboutRevisions) := by
  refine tree.within_localPath.bind fun root _ => ?_
  split
  · exact Attempt.within_pure trivial
  · refine (tree.within_run _).bind fun remote _ => ?_
    exact (tree.within_succeed _).bind fun _ _ => Attempt.within_pure trivial

theorem within_serverUrl :
    tree.serverUrl.Within Routine (fun _ => True) (¬ ·.AboutRevisions) :=
  (tree.within_run _).bind fun _ _ => Attempt.within_pure trivial

theorem within_pendingChanges :
    tree.pendingChanges.Within Routine (fun _ => True) (¬ ·.AboutRevisions) :=
  (tree.within_succeed _).bind fun _ _ => Attempt.within_pure trivial

theorem within_message (range : RevisionRange) :
    (tree.message range).Within Routine (fun _ => True) fun _ => True := by
  have found :
      ∀ revision,
        (Attempt.ofExcept (commitAt revision) : Query (Option String)).Within Routine
          (fun _ => True) fun _ => True :=
    fun _ => within_commitAt fun _ _ => trivial
  refine (found range.base).bind fun base _ => ?_
  cases base with
  | none => exact (found range.tip).bind fun _ _ => Attempt.within_pure trivial
  | some base =>
      refine (found range.tip).bind fun tip _ => ?_
      cases tip with
      | none => exact Attempt.within_pure trivial
      | some tip =>
          exact (tree.within_succeed _).anyEnd.bind fun _ _ => Attempt.within_pure trivial

/-- The operations of a working tree run programs in the tree only. -/
theorem within_provide (operation : Operation) :
    ∀ attempt ∈ tree.provide operation,
      attempt.Within Routine (fun _ => True) fun _ => True := by
  cases operation with
  | repositoryName => exact nofun
  | applyEmptyFiles patch stripCount revert => exact nofun
  | localPath => exact tree.within_localPath.only
  | repositoryInfo => exact tree.within_repositoryInfo.only
  | serverUrl => exact tree.within_serverUrl.only
  | pendingChanges => exact tree.within_pendingChanges.only
  | resolve tokens => exact (tree.within_resolve tokens).only
  | diff range options => exact (tree.within_diff range options).only
  | message range => exact (tree.within_message range).only

end WorkingTree

end ReviewDiff.Git

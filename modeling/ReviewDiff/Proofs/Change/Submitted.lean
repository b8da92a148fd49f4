import ReviewDiff.Change.Synthesis
import ReviewDiff.Proofs.Change.Plan
import ReviewDiff.Proofs.Program.Within

/-!
# Diffs of submitted changes

Both sides of a file that was submitted are revisions in the depot.  So the
synthesis of such a range never asks for pending content, whatever the keeper of
the files tells about moves.
-/

namespace ReviewDiff.Change

/-- A question about anything but pending content. -/
def Snapshots.Settled : Snapshots.interface.Request → Prop
  | .content _ (.pending _) => False
  | _ => True

/-- The new side of a change that was submitted is a revision. -/
theorem numbered_of_mem_collapse
    {records : List ChangedFile} {change : FileChange}
    (member : change ∈ collapse false records) :
    ∀ version ∈ change.new, ∃ revision, version = .numbered revision := by
  obtain ⟨_, _, last, _, _, _, newSide, _⟩ := exists_records_of_mem_collapse member
  intro version isNew
  rw [newSide, ChangedFile.newSide] at isNew
  split at isNew
  · cases isNew
  · exact ⟨last.revision, (Option.some.inj isNew).symm⟩

theorem within_fetch
    {path : String} {version : Option Version}
    (numbered : ∀ found ∈ version, ∃ revision, found = .numbered revision) :
    (fetch path version).Within Snapshots.Settled fun _ => True := by
  cases version with
  | none => trivial
  | some found =>
      obtain ⟨revision, rfl⟩ := numbered found rfl
      refine ⟨trivial, fun answer => ?_⟩
      cases answer <;> trivial

theorem within_localName (path : String) :
    (localName path).Within Snapshots.Settled fun _ => True := by
  refine ⟨trivial, fun answer => ?_⟩
  rcases answer with failure | (_ | name) <;> trivial

theorem within_fragment
    {part : Part}
    (numbered : ∀ change ∈ part.changes, ∀ version ∈ change.new,
      ∃ revision, version = .numbered revision)
    (stamp : String) :
    (part.fragment stamp).Within Snapshots.Settled fun _ => True := by
  have oldFetched :
      ∀ path (revision : Option Nat),
        (fetch path (revision.map .numbered)).Within Snapshots.Settled fun _ => True := by
    intro path revision
    apply within_fetch
    rintro _ isOld
    obtain ⟨number, _, rfl⟩ := Option.map_eq_some_iff.mp isOld
    exact ⟨number, rfl⟩
  cases part with
  | single change =>
      refine (oldFetched change.path change.old).bind fun old _ => ?_
      refine (within_fetch (numbered change List.mem_cons_self)).bind fun new _ => ?_
      split
      · exact (within_localName change.path).bind fun _ _ => trivial
      · trivial
  | move link =>
      have destIn : link.dest ∈ (Part.move link).changes :=
        List.mem_cons_of_mem _ List.mem_cons_self
      refine (oldFetched link.source.path link.source.old).bind fun old _ => ?_
      exact (within_fetch (numbered link.dest destIn)).bind fun _ _ => trivial

theorem within_fragmentsOf
    {parts : List Part}
    (numbered : ∀ part ∈ parts, ∀ change ∈ part.changes, ∀ version ∈ change.new,
      ∃ revision, version = .numbered revision)
    (stamp : String) :
    (fragmentsOf stamp parts).Within Snapshots.Settled fun _ => True := by
  induction parts with
  | nil => trivial
  | cons part rest inductionHypothesis =>
      rw [List.forall_mem_cons] at numbered
      refine (within_fragment numbered.1 stamp).bind fun _ _ => ?_
      exact (inductionHypothesis numbered.2).bind fun _ _ => trivial

theorem within_findLinks (changes todo : List FileChange) :
    (findLinks changes todo).Within Snapshots.Settled fun _ => True := by
  induction todo with
  | nil => trivial
  | cons change rest inductionHypothesis =>
      rw [findLinks]
      split
      · refine ⟨trivial, fun target => ?_⟩
        exact inductionHypothesis.bind fun _ _ => trivial
      · exact inductionHypothesis

theorem within_plan (changes : List FileChange) (detectMoves : Bool) :
    (plan changes detectMoves).Within Snapshots.Settled fun parts =>
      ∀ part ∈ parts, ∀ change ∈ part.changes, change ∈ changes := by
  have asks : (plan changes detectMoves).Within Snapshots.Settled fun _ => True := by
    unfold plan
    split
    · exact (within_findLinks changes changes).bind fun _ _ => trivial
    · trivial
  exact asks.yielding.mono (fun _ settled => settled) fun _ yields =>
    changes_of_mem_plan yields.2

/-- The synthesis of submitted changes asks for no pending content, neither for the plan
nor for what is written of its parts. -/
theorem within_plan_of_submitted
    {range : RevisionRange} (submitted : isInFlight range = false)
    (stamp : String) (records : List ChangedFile) (detectMoves : Bool) :
    (plan (collapse (isInFlight range) records) detectMoves).Within Snapshots.Settled
      fun parts => (fragmentsOf stamp parts).Within Snapshots.Settled fun _ => True := by
  rw [submitted]
  refine (within_plan _ detectMoves).mono (fun _ settled => settled) fun parts among => ?_
  refine within_fragmentsOf (fun part inParts change inPart => ?_) stamp
  exact numbered_of_mem_collapse (among part inParts change inPart)

end ReviewDiff.Change

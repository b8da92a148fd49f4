import ReviewDiff.Proofs.Program.Within
import ReviewDiff.Proofs.Text.Digits
import ReviewDiff.Revision

/-!
# Ranges of changelist tokens

Whatever the server says of the changelists, tokens name one of two shapes of
ranges: a pending changelist against the synced state, or two submitted
changelists with numbers in order.  One token names the range from its
predecessor, whose number is written out and reads back.
-/

namespace ReviewDiff

/-- The failure is that revisions name no range. -/
def Failure.AboutRevisions : Failure → Prop
  | .invalidRevisionSpec _ | .tooManyRevisions => True
  | _ => False

/-- The failure is not about revisions, given that they fit. -/
def SparedBy (fits : Prop) (failure : Failure) : Prop :=
  fits → ¬ failure.AboutRevisions

theorem Attempt.Within.sparedBy
    {I : Interface} {α : Type} {asks : I.Request → Prop} {ends : α → Prop}
    {attempt : Attempt I α} (within : attempt.Within asks ends (¬ ·.AboutRevisions))
    (fits : Prop) :
    attempt.Within asks ends (SparedBy fits) :=
  within.mono (fun _ fits => fits) fun _ spares _ => spares

/-! ## Changelist numbers -/

namespace Text

theorem le_of_readDigits?
    {bound n : Nat} {digits : List Char} (reads : readDigits? bound digits = some n) :
    n ≤ bound := by
  unfold readDigits? at reads
  split at reads
  · cases reads
  · split at reads
    · rename_i fits
      rwa [← Option.some.inj reads]
    · cases reads

theorem le_of_readNat?
    {bound n : Nat} {text : String} (reads : readNat? bound text = some n) :
    n ≤ bound := by
  unfold readNat? at reads
  split at reads
  · exact le_of_readDigits? reads
  · exact le_of_readDigits? reads

theorem readNat?_toString {bound n : Nat} (fits : n ≤ bound) :
    readNat? bound (toString n) = some n := by
  unfold readNat?
  split
  · rename_i digits shape
    have plus : '+' ∈ (toString n).toList := by
      rw [shape]
      exact List.mem_cons_self
    exact absurd plus (notMem_toString_of_not_isDigit (by decide) n)
  · exact readDigits?_toString fits

end Text

theorem parseChange_eq_ok_iff {change : String} {number : Nat} :
    parseChange change = .ok number ↔ Text.readNat64? change = some number := by
  unfold parseChange
  split
  · rename_i found reads
    rw [reads, Except.ok.injEq, Option.some_inj]
  · rename_i none
    rw [none]
    exact iff_of_false nofun nofun

theorem parseChange_toString {number : Nat} (fits : number ≤ Text.max64) :
    parseChange (toString number) = .ok number :=
  parseChange_eq_ok_iff.mpr (Text.readNat?_toString fits)

/-- The number in front of a changelist number is one, too. -/
theorem parseChange_predecessor
    {change : String} {previous : Nat} (reads : parseChange change = .ok (previous + 1)) :
    parseChange (toString previous) = .ok previous := by
  have fits := Text.le_of_readNat? (parseChange_eq_ok_iff.mp reads)
  exact parseChange_toString (Nat.le_of_succ_le fits)

/-! ## Shapes of ranges -/

namespace RevisionRange

/-- The range is a pending changelist against the synced state. -/
def IsPending (range : RevisionRange) : Prop :=
  range.base = .currentSync ∧ ∃ change, range.tip = .pending change

/-- The range lies between submitted changelists with these numbers. -/
def Spans (range : RevisionRange) (first last : Nat) : Prop :=
  ∃ base tip, range.base = .concrete base ∧ range.tip = .concrete tip ∧
    parseChange base = .ok first ∧ parseChange tip = .ok last

/-- A range whose files Perforce can list. -/
def Listable (range : RevisionRange) : Prop :=
  range.IsPending ∨ ∃ first last, range.Spans first last

/-- A range as changelist tokens name it. -/
def NamedBy (tokens : List String) (range : RevisionRange) : Prop :=
  range.IsPending ∨
    ∃ first last, range.Spans first last ∧ first ≤ last ∧
      (tokens.length = 1 → first + 1 = last)

theorem NamedBy.listable
    {tokens : List String} {range : RevisionRange} (named : range.NamedBy tokens) :
    range.Listable := by
  rcases named with pending | ⟨first, last, spans, _⟩
  · exact Or.inl pending
  · exact Or.inr ⟨first, last, spans⟩

section Lookup

variable {I : Interface} {asks : I.Request → Prop}
  {lookup : String → Attempt I (Option ChangeStatus)}
  (lookupWithin :
    ∀ change, (lookup change).Within asks (fun _ => True) fun _ => True)

include lookupWithin

theorem within_statusOf (change : String) :
    (statusOf lookup change).Within asks (fun _ => True) fun _ => True := by
  refine (lookupWithin change).bind fun status _ => ?_
  split
  · exact Attempt.within_pure trivial
  · exact Attempt.within_throw trivial

theorem within_requireSubmitted (change : String) :
    (requireSubmitted lookup change).Within asks (fun _ => True) fun _ => True := by
  refine (within_statusOf lookupWithin change).bind fun status _ => ?_
  split
  · exact Attempt.within_throw trivial
  · exact Attempt.within_pure trivial

theorem within_ofChange (change : String) :
    (ofChange lookup change).Within asks (NamedBy [change]) fun _ => True := by
  refine (within_statusOf lookupWithin change).bind fun status _ => ?_
  split
  · exact Attempt.within_pure (Or.inl ⟨rfl, change, rfl⟩)
  · refine (Attempt.within_ofExcept_eq fun _ _ => trivial).bind fun number reads => ?_
    split
    · exact Attempt.within_throw trivial
    · rename_i previous
      refine Attempt.within_pure (Or.inr ⟨previous, previous + 1, ?_, Nat.le_succ _, ?_⟩)
      · exact ⟨_, change, rfl, rfl, parseChange_predecessor reads, reads⟩
      · exact fun _ => rfl

theorem within_ofChanges (first second : String) :
    (ofChanges lookup first second).Within asks (NamedBy [first, second])
      fun _ => True := by
  refine (within_requireSubmitted lookupWithin first).bind fun _ _ => ?_
  refine (within_requireSubmitted lookupWithin second).bind fun _ _ => ?_
  refine (Attempt.within_ofExcept_eq fun _ _ => trivial).bind fun start startReads => ?_
  refine (Attempt.within_ofExcept_eq fun _ _ => trivial).bind fun stop stopReads => ?_
  split
  · exact Attempt.within_throw trivial
  · rename_i ordered
    refine Attempt.within_pure (Or.inr ⟨start, stop, ?_, Nat.le_of_not_lt ordered, ?_⟩)
    · exact ⟨first, second, rfl, rfl, startReads, stopReads⟩
    · exact fun single => absurd single (by simp)

/-- Tokens name only ranges of these shapes. -/
theorem within_ofTokens (tokens : List String) :
    (ofTokens lookup tokens).Within asks (NamedBy tokens) fun _ => True := by
  unfold ofTokens
  split
  · exact Attempt.within_pure (Or.inl ⟨rfl, defaultChangelist, rfl⟩)
  · exact within_ofChange lookupWithin _
  · exact within_ofChanges lookupWithin _ _
  · exact Attempt.within_throw trivial

end Lookup

end RevisionRange

end ReviewDiff

import Mathlib.Data.List.Basic
import ReviewDiff.Proofs.LineDiff.Path

/-!
# Longest shared subsequences

`sharedLength` is the length of a longest subsequence that two sequences
share (`exists_shared`, `length_le_sharedLength`).  It does not depend on the
direction in which the sequences are read, and it is superadditive: what is
shared before a point and what is shared behind it is shared by the whole.

On the grid of two sequences `sharedUpTo` gives this length for the items
before a point.  A diagonal step adds one where the two items agree and
nothing beyond the neighbouring points elsewhere.  `exists_divides` finds a
point on a shortest path behind any number of edits.
-/

namespace ReviewDiff.LineDiff

variable {α : Type} [DecidableEq α]

/-- The length of a longest subsequence that two sequences share. -/
def sharedLength : List α → List α → Nat
  | a :: as, b :: bs =>
      if a = b then sharedLength as bs + 1
      else max (sharedLength as (b :: bs)) (sharedLength (a :: as) bs)
  | [], _ => 0
  | _ :: _, [] => 0
termination_by old new => old.length + new.length

/-! ## Subsequences -/

theorem exists_shared (old new : List α) :
    ∃ common : List α, common.Sublist old ∧ common.Sublist new ∧
      common.length = sharedLength old new := by
  fun_induction sharedLength old new with
  | case1 as b bs inductionHypothesis =>
      obtain ⟨common, inOld, inNew, length⟩ := inductionHypothesis
      exact ⟨b :: common, inOld.cons_cons b, inNew.cons_cons b, by simp [length]⟩
  | case2 a as b bs _ withoutOld withoutNew =>
      rcases Nat.le_total (sharedLength as (b :: bs)) (sharedLength (a :: as) bs)
        with shorter | longer
      · obtain ⟨common, inOld, inNew, length⟩ := withoutNew
        rw [Nat.max_eq_right shorter]
        exact ⟨common, inOld, inNew.cons b, length⟩
      · obtain ⟨common, inOld, inNew, length⟩ := withoutOld
        rw [Nat.max_eq_left longer]
        exact ⟨common, inOld.cons a, inNew, length⟩
  | case3 new => exact ⟨[], List.nil_sublist _, List.nil_sublist _, rfl⟩
  | case4 => exact ⟨[], List.nil_sublist _, List.nil_sublist _, rfl⟩

theorem length_le_sharedLength
    {old new common : List α}
    (inOld : common.Sublist old) (inNew : common.Sublist new) :
    common.length ≤ sharedLength old new := by
  fun_induction sharedLength old new generalizing common with
  | case1 as b bs inductionHypothesis =>
      have rest := inductionHypothesis inOld.tail inNew.tail
      rw [List.length_tail] at rest
      omega
  | case2 a as b bs different withoutOld withoutNew =>
      cases common with
      | nil => exact Nat.zero_le _
      | cons item others =>
          rcases List.cons_sublist_cons'.mp inOld with later | ⟨rfl, _⟩
          · exact Nat.le_trans (withoutOld later inNew) (Nat.le_max_left _ _)
          · have later := List.cons_sublist_cons'.mp inNew
            have inRest := later.resolve_right fun same => different same.1
            exact Nat.le_trans (withoutNew inOld inRest) (Nat.le_max_right _ _)
  | case3 new => simp [List.sublist_nil.mp inOld]
  | case4 => simp [List.sublist_nil.mp inNew]

section Lengths

variable (old new old' new' : List α)

theorem sharedLength_cons_self (item : α) :
    sharedLength (item :: old) (item :: new) = sharedLength old new + 1 := by
  rw [sharedLength, if_pos rfl]

theorem sharedLength_cons_of_ne {a b : α} (different : a ≠ b) :
    sharedLength (a :: old) (b :: new) =
      max (sharedLength old (b :: new)) (sharedLength (a :: old) new) := by
  rw [sharedLength, if_neg different]

theorem sharedLength_nil_left : sharedLength [] new = 0 := by
  rw [sharedLength]

theorem sharedLength_nil_right : sharedLength old [] = 0 := by
  cases old <;> rw [sharedLength]

variable {old new old' new'}

theorem sharedLength_mono
    (oldInside : old.Sublist old') (newInside : new.Sublist new') :
    sharedLength old new ≤ sharedLength old' new' := by
  obtain ⟨common, inOld, inNew, length⟩ := exists_shared old new
  rw [← length]
  exact length_le_sharedLength (inOld.trans oldInside) (inNew.trans newInside)

variable (old new old' new')

theorem sharedLength_le_left : sharedLength old new ≤ old.length := by
  obtain ⟨common, inOld, _, length⟩ := exists_shared old new
  rw [← length]
  exact inOld.length_le

theorem sharedLength_le_right : sharedLength old new ≤ new.length := by
  obtain ⟨common, _, inNew, length⟩ := exists_shared old new
  rw [← length]
  exact inNew.length_le

theorem sharedLength_append_le :
    sharedLength old new + sharedLength old' new' ≤
      sharedLength (old ++ old') (new ++ new') := by
  obtain ⟨front, frontOld, frontNew, frontLength⟩ := exists_shared old new
  obtain ⟨back, backOld, backNew, backLength⟩ := exists_shared old' new'
  rw [← frontLength, ← backLength, ← List.length_append]
  exact length_le_sharedLength (frontOld.append backOld) (frontNew.append backNew)

theorem sharedLength_reverse_le :
    sharedLength old new ≤ sharedLength old.reverse new.reverse := by
  obtain ⟨common, inOld, inNew, length⟩ := exists_shared old new
  rw [← length, ← List.length_reverse]
  exact length_le_sharedLength inOld.reverse inNew.reverse

theorem sharedLength_reverse :
    sharedLength old.reverse new.reverse = sharedLength old new := by
  apply Nat.le_antisymm
  · simpa using sharedLength_reverse_le old.reverse new.reverse
  · exact sharedLength_reverse_le old new

theorem dropLast_sublist_of_short
    {common items last : List α} (short : last.length ≤ 1)
    (inside : common.Sublist (items ++ last)) :
    common.dropLast.Sublist items := by
  obtain ⟨front, back, rfl, inItems, inLast⟩ := List.sublist_append_iff.mp inside
  have bound := inLast.length_le
  match back with
  | [] =>
      rw [List.append_nil]
      exact (List.dropLast_sublist front).trans inItems
  | [item] => rwa [List.dropLast_concat]
  | first :: second :: others =>
      simp only [List.length_cons] at bound
      omega

/-- One more item on either side shares at most one more. -/
theorem sharedLength_append_le_succ
    {last last' : List α} (short : last.length ≤ 1) (short' : last'.length ≤ 1) :
    sharedLength (old ++ last) (new ++ last') ≤ sharedLength old new + 1 := by
  obtain ⟨common, inOld, inNew, length⟩ := exists_shared (old ++ last) (new ++ last')
  have rest :=
    length_le_sharedLength (dropLast_sublist_of_short short inOld)
      (dropLast_sublist_of_short short' inNew)
  rw [List.length_dropLast] at rest
  omega

theorem sharedLength_concat_of_ne {a b : α} (different : a ≠ b) :
    sharedLength (old ++ [a]) (new ++ [b]) =
      max (sharedLength old (new ++ [b])) (sharedLength (old ++ [a]) new) := by
  rw [← sharedLength_reverse, ← sharedLength_reverse old,
    ← sharedLength_reverse (old ++ [a]) new, List.reverse_concat,
    List.reverse_concat, sharedLength_cons_of_ne _ _ different]

end Lengths

/-! ## Shared ends -/

theorem take_commonPrefix (old new : List α) :
    old.take (commonPrefix old new) = new.take (commonPrefix old new) := by
  fun_induction commonPrefix old new with
  | case1 a as bs inductionHypothesis =>
      rw [List.take_succ_cons, List.take_succ_cons, inductionHypothesis]
  | case2 => rfl
  | case3 => rfl

theorem commonPrefix_behind (old new : List α) :
    commonPrefix (old.drop (commonPrefix old new))
      (new.drop (commonPrefix old new)) = 0 := by
  fun_induction commonPrefix old new with
  | case1 a as bs inductionHypothesis => exact inductionHypothesis
  | case2 a as b bs different => simp [commonPrefix, different]
  | case3 old new noPair =>
      rw [List.drop_zero, List.drop_zero]
      unfold commonPrefix
      split
      · exact absurd rfl (noPair _ _ _ _ rfl)
      · rfl

theorem sharedLength_eq_commonPrefix_add (old new : List α) :
    sharedLength old new =
      commonPrefix old new +
        sharedLength (old.drop (commonPrefix old new))
          (new.drop (commonPrefix old new)) := by
  fun_induction commonPrefix old new with
  | case1 a as bs inductionHypothesis =>
      rw [sharedLength_cons_self, inductionHypothesis, List.drop_succ_cons,
        List.drop_succ_cons]
      omega
  | case2 => simp
  | case3 => simp

theorem sharedLength_self (items : List α) :
    sharedLength items items = items.length := by
  induction items with
  | nil => exact sharedLength_nil_left []
  | cons item rest inductionHypothesis =>
      rw [sharedLength_cons_self, inductionHypothesis, List.length_cons]

theorem commonPrefix_take_le
    (old new : List α) (m n : Nat) :
    commonPrefix (old.take m) (new.take n) ≤ commonPrefix old new := by
  induction old generalizing new m n with
  | nil => simp [commonPrefix]
  | cons a as inductionHypothesis =>
      cases m with
      | zero => simp [commonPrefix]
      | succ m =>
          cases new with
          | nil => simp [commonPrefix]
          | cons b bs =>
              cases n with
              | zero => simp [commonPrefix]
              | succ n =>
                  simp only [List.take_succ_cons, commonPrefix]
                  split
                  · exact Nat.succ_le_succ (inductionHypothesis bs m n)
                  · exact Nat.le_refl 0

theorem length_le_commonPrefix_append (items back back' : List α) :
    items.length ≤ commonPrefix (items ++ back) (items ++ back') := by
  induction items with
  | nil => exact Nat.zero_le _
  | cons item rest inductionHypothesis =>
      simp only [List.cons_append, commonPrefix, if_true, List.length_cons]
      exact Nat.succ_le_succ inductionHypothesis

theorem commonSuffix_before (old new : List α) :
    commonSuffix (old.take (old.length - commonSuffix old new))
      (new.take (new.length - commonSuffix old new)) = 0 := by
  have oldBound := commonSuffix_le_length old new
  have newBound := commonSuffix_le_length_right old new
  have behind := commonPrefix_behind old.reverse new.reverse
  unfold commonSuffix at *
  rwa [List.reverse_take, List.reverse_take, Nat.sub_sub_self oldBound,
    Nat.sub_sub_self newBound]

theorem sharedLength_eq_add_commonSuffix (old new : List α) :
    sharedLength old new =
      sharedLength (old.take (old.length - commonSuffix old new))
          (new.take (new.length - commonSuffix old new)) +
        commonSuffix old new := by
  have mirrored := sharedLength_eq_commonPrefix_add old.reverse new.reverse
  rw [sharedLength_reverse, List.drop_reverse, List.drop_reverse,
    sharedLength_reverse] at mirrored
  unfold commonSuffix
  omega

theorem eq_of_sharedLength
    {old new : List α} (wholeOld : sharedLength old new = old.length)
    (wholeNew : sharedLength old new = new.length) : old = new := by
  obtain ⟨common, inOld, inNew, length⟩ := exists_shared old new
  rw [← inOld.eq_of_length (length.trans wholeOld)]
  exact inNew.eq_of_length (length.trans wholeNew)

/-! ## The grid -/

/-- The length of a longest subsequence shared before a point of the grid. -/
def sharedUpTo (old new : List α) (x y : Nat) : Nat :=
  sharedLength (old.take x) (new.take y)

section Grid

variable (old new : List α) {x y : Nat}

theorem sharedUpTo_le_column (x y : Nat) : sharedUpTo old new x y ≤ x :=
  Nat.le_trans (sharedLength_le_left _ _) (List.length_take_le x old)

theorem sharedUpTo_le_row (x y : Nat) : sharedUpTo old new x y ≤ y :=
  Nat.le_trans (sharedLength_le_right _ _) (List.length_take_le y new)

theorem sharedUpTo_le_sharedLength (x y : Nat) :
    sharedUpTo old new x y ≤ sharedLength old new :=
  sharedLength_mono (List.take_sublist x old) (List.take_sublist y new)

theorem sharedUpTo_mono
    {x' y' : Nat} (columns : x ≤ x') (rows : y ≤ y') :
    sharedUpTo old new x y ≤ sharedUpTo old new x' y' :=
  sharedLength_mono (List.take_prefix_take_left columns).sublist
    (List.take_prefix_take_left rows).sublist

theorem sharedUpTo_diagonal_le (x y : Nat) :
    sharedUpTo old new (x + 1) (y + 1) ≤ sharedUpTo old new x y + 1 := by
  unfold sharedUpTo
  rw [List.take_add, List.take_add]
  exact sharedLength_append_le_succ _ _ (List.length_take_le 1 _)
    (List.length_take_le 1 _)

variable {old new}

/-- Shared items lead along a diagonal. -/
theorem sharedUpTo_slide {x y count : Nat}
    (shared : commonPrefix (old.drop x) (new.drop y) = count) :
    sharedUpTo old new x y + count ≤ sharedUpTo old new (x + count) (y + count) := by
  have bound := commonPrefix_le_length (old.drop x) (new.drop y)
  have same := take_commonPrefix (old.drop x) (new.drop y)
  rw [shared] at bound same
  have run : sharedLength ((old.drop x).take count) ((new.drop y).take count) = count := by
    rw [← same, sharedLength_self, List.length_take_of_le bound]
  unfold sharedUpTo
  rw [List.take_add, List.take_add]
  have whole :=
    sharedLength_append_le (old.take x) (new.take y) ((old.drop x).take count)
      ((new.drop y).take count)
  rwa [run] at whole

/-- Where the items differ, a diagonal step shares no more than one of the two
points beside it. -/
theorem sharedUpTo_of_stuck
    (stuck : commonPrefix (old.drop x) (new.drop y) = 0) :
    sharedUpTo old new (x + 1) (y + 1) ≤
      max (sharedUpTo old new x (y + 1)) (sharedUpTo old new (x + 1) y) := by
  unfold sharedUpTo
  cases oldRest : old.drop x with
  | nil =>
      have oldEnd : old.take (x + 1) = old.take x := by
        rw [List.take_add, oldRest, List.take_nil, List.append_nil]
      rw [oldEnd]
      exact Nat.le_max_left _ _
  | cons a as =>
      cases newRest : new.drop y with
      | nil =>
          have newEnd : new.take (y + 1) = new.take y := by
            rw [List.take_add, newRest, List.take_nil, List.append_nil]
          rw [newEnd]
          exact Nat.le_max_right _ _
      | cons b bs =>
          have different : a ≠ b := by
            rintro rfl
            rw [oldRest, newRest] at stuck
            simp [commonPrefix] at stuck
          have oldNext : old.take (x + 1) = old.take x ++ [a] := by
            rw [List.take_add, oldRest]
            rfl
          have newNext : new.take (y + 1) = new.take y ++ [b] := by
            rw [List.take_add, newRest]
            rfl
          rw [oldNext, newNext]
          exact Nat.le_of_eq (sharedLength_concat_of_ne _ _ different)

/-- What is shared behind a point, on the grid that is read backwards. -/
theorem sharedUpTo_reverse (x y : Nat)
    (oldInside : x ≤ old.length) (newInside : y ≤ new.length) :
    sharedUpTo old.reverse new.reverse (old.length - x) (new.length - y) =
      sharedLength (old.drop x) (new.drop y) := by
  unfold sharedUpTo
  rw [List.take_reverse, List.take_reverse, sharedLength_reverse,
    Nat.sub_sub_self oldInside, Nat.sub_sub_self newInside]

theorem sharedUpTo_add_behind_le (old new : List α) (x y : Nat) :
    sharedUpTo old new x y + sharedLength (old.drop x) (new.drop y) ≤
      sharedLength old new := by
  have whole :=
    sharedLength_append_le (old.take x) (new.take y) (old.drop x) (new.drop y)
  rwa [List.take_append_drop, List.take_append_drop] at whole

end Grid

/-! ## Points on a shortest path -/

/-- A point divides two sequences without loss: what is shared before it and
what is shared behind it add up to what the whole shares. -/
structure Divides (old new : List α) (x y : Nat) : Prop where
  oldInside : x ≤ old.length
  newInside : y ≤ new.length
  shared :
    sharedUpTo old new x y + sharedLength (old.drop x) (new.drop y) =
      sharedLength old new

namespace Divides

variable {old new : List α} {x y : Nat}

theorem start (old new : List α) : Divides old new 0 0 where
  oldInside := Nat.zero_le _
  newInside := Nat.zero_le _
  shared := by
    have none : sharedUpTo old new 0 0 = 0 :=
      Nat.le_zero.mp (sharedUpTo_le_row old new 0 0)
    rw [none, List.drop_zero, List.drop_zero, Nat.zero_add]

theorem cons_both
    (item : α) (divides : Divides old new x y) :
    Divides (item :: old) (item :: new) (x + 1) (y + 1) ∧
      sharedUpTo (item :: old) (item :: new) (x + 1) (y + 1) =
        sharedUpTo old new x y + 1 := by
  have further :
      sharedUpTo (item :: old) (item :: new) (x + 1) (y + 1) =
        sharedUpTo old new x y + 1 :=
    sharedLength_cons_self (old.take x) (new.take y) item
  refine ⟨⟨Nat.succ_le_succ divides.oldInside, Nat.succ_le_succ divides.newInside, ?_⟩,
    further⟩
  have shared := divides.shared
  rw [further, sharedLength_cons_self, List.drop_succ_cons, List.drop_succ_cons]
  omega

theorem cons_old
    {item : α} (divides : Divides old new x y)
    (same : sharedLength (item :: old) new = sharedLength old new) :
    Divides (item :: old) new (x + 1) y ∧
      sharedUpTo (item :: old) new (x + 1) y = sharedUpTo old new x y := by
  have shared := divides.shared
  have atLeast : sharedUpTo old new x y ≤ sharedUpTo (item :: old) new (x + 1) y :=
    sharedLength_mono (List.sublist_cons_self item _) (List.Sublist.refl _)
  have atMost := sharedUpTo_add_behind_le (item :: old) new (x + 1) y
  rw [List.drop_succ_cons] at atMost
  have further :
      sharedUpTo (item :: old) new (x + 1) y = sharedUpTo old new x y := by
    omega
  refine ⟨⟨Nat.succ_le_succ divides.oldInside, divides.newInside, ?_⟩, further⟩
  rw [further, same, List.drop_succ_cons, shared]

theorem cons_new
    {item : α} (divides : Divides old new x y)
    (same : sharedLength old (item :: new) = sharedLength old new) :
    Divides old (item :: new) x (y + 1) ∧
      sharedUpTo old (item :: new) x (y + 1) = sharedUpTo old new x y := by
  have shared := divides.shared
  have atLeast : sharedUpTo old new x y ≤ sharedUpTo old (item :: new) x (y + 1) :=
    sharedLength_mono (List.Sublist.refl _) (List.sublist_cons_self item _)
  have atMost := sharedUpTo_add_behind_le old (item :: new) x (y + 1)
  rw [List.drop_succ_cons] at atMost
  have further :
      sharedUpTo old (item :: new) x (y + 1) = sharedUpTo old new x y := by
    omega
  refine ⟨⟨divides.oldInside, Nat.succ_le_succ divides.newInside, ?_⟩, further⟩
  rw [further, same, List.drop_succ_cons, shared]

end Divides

/-- After any number of edits, up to the number that a shortest path needs,
such a path is at a point of the grid. -/
theorem exists_divides
    (old new : List α) (edits : Nat)
    (enough : edits + 2 * sharedLength old new ≤ old.length + new.length) :
    ∃ x y, Divides old new x y ∧ x + y = edits + 2 * sharedUpTo old new x y := by
  induction old, new using sharedLength.induct generalizing edits with
  | case1 as b bs inductionHypothesis =>
      rw [sharedLength_cons_self, List.length_cons, List.length_cons] at enough
      obtain ⟨x, y, divides, point⟩ := inductionHypothesis edits (by omega)
      obtain ⟨longer, shared⟩ := divides.cons_both b
      exact ⟨x + 1, y + 1, longer, by omega⟩
  | case2 a as b bs different withoutOld withoutNew =>
      cases edits with
      | zero =>
          have none := sharedUpTo_le_row (a :: as) (b :: bs) 0 0
          exact ⟨0, 0, Divides.start _ _, by omega⟩
      | succ edits =>
          have larger := sharedLength_cons_of_ne as bs different
          rcases Nat.le_total (sharedLength as (b :: bs)) (sharedLength (a :: as) bs)
            with shorter | longer
          · rw [Nat.max_eq_right shorter] at larger
            rw [larger] at enough
            simp only [List.length_cons] at enough withoutNew
            obtain ⟨x, y, divides, point⟩ := withoutNew edits (by omega)
            obtain ⟨further, shared⟩ := divides.cons_new larger
            exact ⟨x, y + 1, further, by omega⟩
          · rw [Nat.max_eq_left longer] at larger
            rw [larger] at enough
            simp only [List.length_cons] at enough withoutOld
            obtain ⟨x, y, divides, point⟩ := withoutOld edits (by omega)
            obtain ⟨further, shared⟩ := divides.cons_old larger
            exact ⟨x + 1, y, further, by omega⟩
  | case3 new =>
      have none := sharedUpTo_le_column [] new 0 edits
      rw [sharedLength_nil_left, List.length_nil] at enough
      refine ⟨0, edits, ⟨Nat.zero_le _, by omega, ?_⟩, by omega⟩
      rw [List.drop_zero, sharedLength_nil_left, sharedLength_nil_left]
      omega
  | case4 a as =>
      have none := sharedUpTo_le_row (a :: as) [] edits 0
      rw [sharedLength_nil_right, List.length_nil] at enough
      refine ⟨edits, 0, ⟨by omega, Nat.zero_le _, ?_⟩, by omega⟩
      rw [List.drop_zero, sharedLength_nil_right, sharedLength_nil_right]
      omega

end ReviewDiff.LineDiff

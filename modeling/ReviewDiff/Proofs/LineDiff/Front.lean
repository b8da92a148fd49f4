import ReviewDiff.Proofs.LineDiff.Shared

/-!
# Fronts of a search

A front of a search lists the furthest columns that a number of edits reaches,
diagonal by diagonal.  `Furthest` says this of one diagonal: a point on it is
reached exactly when its column is not beyond the one listed.  Points outside
of the grid count as well, as if items that nothing shares were added to both
sequences.

A round takes one front to the next one (`IsFront.next`): it enters a diagonal
where the diagonals beside it end, and passes the shared items from there.
-/

namespace ReviewDiff.LineDiff

variable {α : Type} [DecidableEq α]

/-! ## Points within reach -/

/-- Fewer than so many edits lead to a point. -/
def Reached (old new : List α) (edits x y : Nat) : Prop :=
  x + y < edits + 2 * sharedUpTo old new x y

section Reached

variable {old new : List α} {edits x y : Nat}

theorem Reached.right (reached : Reached old new edits x y) :
    Reached old new (edits + 1) (x + 1) y := by
  have more := sharedUpTo_mono old new (Nat.le_add_right x 1) (Nat.le_refl y)
  unfold Reached at *
  omega

theorem Reached.down (reached : Reached old new edits x y) :
    Reached old new (edits + 1) x (y + 1) := by
  have more := sharedUpTo_mono old new (Nat.le_refl x) (Nat.le_add_right y 1)
  unfold Reached at *
  omega

/-- A point on the way along a diagonal is reached with its end. -/
theorem Reached.back (count : Nat)
    (reached : Reached old new edits (x + count) (y + count)) :
    Reached old new edits x y := by
  induction count with
  | zero => exact reached
  | succ count inductionHypothesis =>
      apply inductionHypothesis
      have step :
          sharedUpTo old new (x + (count + 1)) (y + (count + 1)) ≤
            sharedUpTo old new (x + count) (y + count) + 1 :=
        sharedUpTo_diagonal_le old new (x + count) (y + count)
      unfold Reached at *
      omega

/-- Edits lead no further away from the main diagonal than their number. -/
theorem Reached.near (reached : Reached old new edits x y) :
    x < edits + y ∧ y < edits + x := by
  have columns := sharedUpTo_le_column old new x y
  have rows := sharedUpTo_le_row old new x y
  unfold Reached at reached
  omega

/-- Behind a point that shares no item with the next one, a point is reached
only through a neighbour. -/
theorem Reached.of_stuck
    (stuck : commonPrefix (old.drop x) (new.drop y) = 0)
    (reached : Reached old new (edits + 1) (x + 1) (y + 1)) :
    Reached old new edits x (y + 1) ∨ Reached old new edits (x + 1) y := by
  have step := sharedUpTo_of_stuck stuck
  unfold Reached at *
  omega

end Reached

/-! ## Columns -/

/-- The column up to which fewer than so many edits lead on a diagonal. -/
structure Furthest
    (old new : List α) (edits : Nat) (diagonal : Int) (column : Nat) :
    Prop where
  inside : diagonal ≤ column
  reached_iff :
    ∀ x y : Nat, (x : Int) - y = diagonal →
      (Reached old new edits x y ↔ x ≤ column)

/-- The column at which a round of so many edits enters a diagonal: it is
reached, and the diagonals beside lead to no later one. -/
structure Entered
    (old new : List α) (edits : Nat) (diagonal : Int) (start : Nat) :
    Prop where
  inside : diagonal ≤ start
  reached :
    ∀ y : Nat, (start : Int) - y = diagonal →
      Reached old new (edits + 1) start y
  fromLeft :
    ∀ x y : Nat, (x : Int) - y = diagonal - 1 →
      Reached old new edits x y → x + 1 ≤ start
  fromAbove :
    ∀ x y : Nat, (x : Int) - y = diagonal + 1 →
      Reached old new edits x y → x ≤ start

section Columns

variable {old new : List α} {edits : Nat} {diagonal : Int} {start : Nat}

theorem rowOf_spec {column : Nat} (inside : diagonal ≤ column) :
    (column : Int) - rowOf column diagonal = diagonal := by
  unfold rowOf
  omega

/-- Where the shared items behind its entry end, a diagonal ends. -/
theorem Entered.furthest
    (entered : Entered old new edits diagonal start) {count : Nat}
    (shared :
      commonPrefix (old.drop start) (new.drop (rowOf start diagonal)) = count) :
    Furthest old new (edits + 1) diagonal (start + count) := by
  have inside := entered.inside
  have entry := rowOf_spec inside
  generalize rowOf start diagonal = row at shared entry
  have atStop : Reached old new (edits + 1) (start + count) (row + count) := by
    have slide := sharedUpTo_slide shared
    have atStart := entered.reached row entry
    unfold Reached at *
    omega
  have stuck :
      commonPrefix (old.drop (start + count)) (new.drop (row + count)) = 0 := by
    have behind := commonPrefix_behind (old.drop start) (new.drop row)
    rwa [shared, List.drop_drop, List.drop_drop] at behind
  refine ⟨by omega, ?_⟩
  intro x y onDiagonal
  constructor
  · intro reached
    by_contra beyond
    have nextReached :
        Reached old new (edits + 1) (start + count + 1) (row + count + 1) := by
      apply Reached.back (x - (start + count + 1))
      have column : start + count + 1 + (x - (start + count + 1)) = x := by omega
      have line : row + count + 1 + (x - (start + count + 1)) = y := by omega
      rwa [column, line]
    rcases nextReached.of_stuck stuck with left | above
    · have early := entered.fromLeft _ _ (by omega) left
      omega
    · have early := entered.fromAbove _ _ (by omega) above
      omega
  · intro early
    apply Reached.back (start + count - x)
    have column : x + (start + count - x) = start + count := by omega
    have line : y + (start + count - x) = row + count := by omega
    rwa [column, line]

end Columns

/-! ## Rounds -/

/-- A front of fewer than so many edits: the furthest columns of all diagonals
that they reach, from above to below. -/
structure IsFront (old new : List α) (edits : Nat) (front : List Nat) : Prop where
  length : front.length = edits
  furthest :
    ∀ i column : Nat, front[i]? = some column →
      Furthest old new edits ((edits : Int) - 1 - 2 * i) column

theorem isFront_nil (old new : List α) : IsFront old new 0 [] where
  length := rfl
  furthest := fun i column found => absurd found (by simp)

theorem length_startsBelow (above : Nat) (front : List Nat) :
    (startsBelow above front).length = front.length + 1 := by
  induction front generalizing above with
  | nil => rfl
  | cons here rest inductionHypothesis =>
      rw [startsBelow, List.length_cons, inductionHypothesis, List.length_cons]

theorem length_nextStarts (front : List Nat) :
    (nextStarts front).length = front.length + 1 := by
  cases front with
  | nil => rfl
  | cons first rest =>
      rw [nextStarts, List.length_cons, length_startsBelow, List.length_cons]

/-- The start of a diagonal in the next round lies behind the columns of both
diagonals beside it, and right behind one of them. -/
structure StartsAt (front : List Nat) (i start : Nat) : Prop where
  left : ∀ here, front[i]? = some here → here + 1 ≤ start
  above : ∀ j column, i = j + 1 → front[j]? = some column → column ≤ start
  attained :
    front = [] ∧ start = 0 ∨
      (∃ here, front[i]? = some here ∧ start = here + 1) ∨
      ∃ j, i = j + 1 ∧ front[j]? = some start

theorem startsAt_startsBelow
    {first : Nat} {rest : List Nat} {i start : Nat}
    (found : (startsBelow first rest)[i]? = some start) :
    StartsAt (first :: rest) (i + 1) start := by
  induction rest generalizing first i with
  | nil =>
      cases i with
      | zero =>
          obtain rfl : first = start := by simpa [startsBelow] using found
          refine ⟨by simp, ?_, Or.inr (Or.inr ⟨0, rfl, rfl⟩)⟩
          intro j column index here
          obtain rfl : j = 0 := by omega
          simp_all
      | succ i => exact absurd found (by simp [startsBelow])
  | cons here others inductionHypothesis =>
      cases i with
      | zero =>
          have same : (if here < first then first else here + 1) = start := by
            simpa [startsBelow] using found
          refine ⟨?_, ?_, Or.inr ?_⟩
          · intro column left
            obtain rfl : here = column := by simpa using left
            split at same <;> omega
          · intro j column index above
            obtain rfl : j = 0 := by omega
            obtain rfl : first = column := by simpa using above
            split at same <;> omega
          · split at same
            · exact Or.inr ⟨0, rfl, by simp [same]⟩
            · exact Or.inl ⟨here, rfl, same.symm⟩
      | succ i =>
          rw [startsBelow, List.getElem?_cons_succ] at found
          obtain ⟨left, above, attained⟩ := inductionHypothesis found
          refine ⟨?_, ?_, Or.inr ?_⟩
          · intro column next
            exact left column (by simpa using next)
          · intro j column index next
            obtain rfl : j = i + 1 := by omega
            exact above i column rfl (by simpa using next)
          · rcases attained with ⟨none, _⟩ | ⟨column, next, same⟩ | ⟨j, index, next⟩
            · exact absurd none (List.cons_ne_nil here others)
            · exact Or.inl ⟨column, by simpa using next, same⟩
            · obtain rfl : i = j := by omega
              exact Or.inr ⟨i + 1, rfl, by simpa using next⟩

theorem startsAt_nextStarts
    {front : List Nat} {i start : Nat}
    (found : (nextStarts front)[i]? = some start) :
    StartsAt front i start := by
  cases front with
  | nil =>
      cases i with
      | zero =>
          obtain rfl : 0 = start := by simpa [nextStarts] using found
          exact ⟨by simp, by simp, Or.inl ⟨rfl, rfl⟩⟩
      | succ i => exact absurd found (by simp [nextStarts])
  | cons first rest =>
      cases i with
      | zero =>
          obtain rfl : first + 1 = start := by simpa [nextStarts] using found
          refine ⟨?_, by simp, Or.inr (Or.inl ⟨first, rfl, rfl⟩)⟩
          intro here left
          obtain rfl : first = here := by simpa using left
          exact Nat.le_refl _
      | succ i =>
          rw [nextStarts, List.getElem?_cons_succ] at found
          exact startsAt_startsBelow found

section Rounds

variable {old new : List α} {edits : Nat} {front : List Nat}

/-- The diagonals on either side of one of the next round, in the last round. -/
theorem IsFront.furthest_left
    (isFront : IsFront old new edits front) {i here : Nat} (known : front[i]? = some here) :
    Furthest old new edits ((edits : Int) - 2 * i - 1) here := by
  have furthest := isFront.furthest i here known
  have same : (edits : Int) - 1 - 2 * i = edits - 2 * i - 1 := by omega
  rwa [same] at furthest

theorem IsFront.furthest_above
    (isFront : IsFront old new edits front) {i j column : Nat} (index : i = j + 1)
    (known : front[j]? = some column) :
    Furthest old new edits ((edits : Int) - 2 * i + 1) column := by
  have furthest := isFront.furthest j column known
  have same : (edits : Int) - 1 - 2 * j = edits - 2 * i + 1 := by omega
  rwa [same] at furthest

/-- Every diagonal of the next round is entered where it should be. -/
theorem IsFront.entered
    (isFront : IsFront old new edits front) {i start : Nat}
    (found : (nextStarts front)[i]? = some start) :
    Entered old new edits ((edits : Int) - 2 * i) start := by
  obtain ⟨left, above, attained⟩ := startsAt_nextStarts found
  have count := length_nextStarts front
  have length := isFront.length
  have inside : i ≤ edits := by
    have bound := (List.getElem?_eq_some_iff.mp found).1
    omega
  refine ⟨?_, ?_, ?_, ?_⟩
  · rcases attained with ⟨none, zero⟩ | ⟨here, known, same⟩ | ⟨j, index, known⟩
    · rw [none, List.length_nil] at length
      omega
    · have inside := (isFront.furthest_left known).inside
      omega
    · have inside := (isFront.furthest_above index known).inside
      omega
  · intro y onDiagonal
    rcases attained with ⟨none, zero⟩ | ⟨here, known, same⟩ | ⟨j, index, known⟩
    · rw [none, List.length_nil] at length
      unfold Reached
      omega
    · have reached := ((isFront.furthest_left known).reached_iff here y (by omega)).mpr
        (Nat.le_refl here)
      rw [same]
      exact reached.right
    · have furthest := isFront.furthest_above index known
      have below := furthest.inside
      obtain ⟨row, rfl⟩ : ∃ row, y = row + 1 := ⟨y - 1, by omega⟩
      exact ((furthest.reached_iff start row (by omega)).mpr (Nat.le_refl start)).down
  · intro x y onDiagonal reached
    by_cases last : i < front.length
    · have known := List.getElem?_eq_getElem last
      have bound := ((isFront.furthest_left known).reached_iff x y onDiagonal).mp reached
      have behind := left _ known
      omega
    · have near := reached.near
      omega
  · intro x y onDiagonal reached
    cases i with
    | zero =>
        have near := reached.near
        omega
    | succ j =>
        have known := List.getElem?_eq_getElem (show j < front.length by omega)
        have furthest := isFront.furthest_above rfl known
        have bound := (furthest.reached_iff x y onDiagonal).mp reached
        have behind := above j _ rfl known
        omega

theorem getElem?_reaches (i : Nat) :
    (reaches old new edits front)[i]? =
      (nextStarts front)[i]?.map fun start =>
        ⟨(edits : Int) - 2 * i, start,
          start + commonPrefix (old.drop start)
            (new.drop (rowOf start ((edits : Int) - 2 * i)))⟩ :=
  List.getElem?_mapIdx

/-- What a round says about a diagonal. -/
structure Passes
    (old new : List α) (edits : Nat) (reach : Reach) : Prop where
  entered : Entered old new edits reach.diagonal reach.start
  stop_eq :
    reach.stop = reach.start + commonPrefix (old.drop reach.start)
      (new.drop (rowOf reach.start reach.diagonal))
  furthest : Furthest old new (edits + 1) reach.diagonal reach.stop

theorem IsFront.passes
    (isFront : IsFront old new edits front) {i : Nat} {reach : Reach}
    (found : (reaches old new edits front)[i]? = some reach) :
    reach.diagonal = (edits : Int) - 2 * i ∧ Passes old new edits reach := by
  rw [getElem?_reaches, Option.map_eq_some_iff] at found
  obtain ⟨start, known, rfl⟩ := found
  have entered := isFront.entered known
  exact ⟨rfl, entered, rfl, entered.furthest rfl⟩

theorem IsFront.exists_reach
    (isFront : IsFront old new edits front) {i : Nat} (inside : i ≤ edits) :
    ∃ reach, (reaches old new edits front)[i]? = some reach := by
  have length := isFront.length
  have count := length_nextStarts front
  have known := List.getElem?_eq_getElem (show i < (nextStarts front).length by omega)
  rw [getElem?_reaches, known]
  exact ⟨_, rfl⟩

/-- A round of a search takes a front to the next one. -/
theorem IsFront.next (isFront : IsFront old new edits front) :
    IsFront old new (edits + 1)
      ((reaches old new edits front).map Reach.stop) where
  length := by
    rw [List.length_map, reaches, List.length_mapIdx, length_nextStarts,
      isFront.length]
  furthest := by
    intro i column found
    rw [List.getElem?_map, Option.map_eq_some_iff] at found
    obtain ⟨reach, known, rfl⟩ := found
    obtain ⟨diagonal, passes⟩ := isFront.passes known
    have same : ((edits + 1 : Nat) : Int) - 1 - 2 * i = reach.diagonal := by omega
    rw [same]
    exact passes.furthest

end Rounds

/-! ## Looking up a diagonal -/

section Columns

variable {old new : List α} {edits : Nat} {front : List Nat} {diagonal : Int}

theorem IsFront.furthest_of_columnOn
    (isFront : IsFront old new (edits + 1) front)
    (parity : ((edits : Int) - diagonal) % 2 = 0) {column : Nat}
    (found : columnOn edits front diagonal = some column) :
    diagonal.natAbs ≤ edits ∧ Furthest old new (edits + 1) diagonal column := by
  unfold columnOn at found
  split at found
  · rename_i near
    have furthest := isFront.furthest _ column found
    have same :
        ((edits + 1 : Nat) : Int) - 1 - 2 * (((edits : Int) - diagonal) / 2).toNat =
          diagonal := by
      omega
    rw [same] at furthest
    exact ⟨near, furthest⟩
  · exact absurd found (by simp)

theorem IsFront.exists_columnOn
    (isFront : IsFront old new (edits + 1) front)
    (near : diagonal.natAbs ≤ edits) :
    ∃ column, columnOn edits front diagonal = some column := by
  have length := isFront.length
  have inside : (((edits : Int) - diagonal) / 2).toNat < front.length := by omega
  rw [columnOn, if_pos near, List.getElem?_eq_getElem inside]
  exact ⟨_, rfl⟩

end Columns

end ReviewDiff.LineDiff

import ReviewDiff.Proofs.LineDiff.Front

/-!
# The middle of a shortest path

Both searches meet when each of them has made half of the edits that a
shortest path needs, and not earlier.  They do meet then, because a shortest
path has a point behind that many edits; and where they meet there is such a
point (`middleSnake_divides`).

The number of edits of a shortest path is the number `distance` of items that
are not shared.  Its parity is that of the two lengths together, which is why
only one of the searches looks for a meeting.
-/

namespace ReviewDiff.LineDiff

variable {α : Type} [DecidableEq α]

/-- So many items of two sequences belong to no longest shared subsequence. -/
def Distance (old new : List α) (distance : Nat) : Prop :=
  distance + 2 * sharedLength old new = old.length + new.length

theorem exists_distance (old new : List α) :
    ∃ distance, Distance old new distance := by
  have atMostOld := sharedLength_le_left old new
  have atMostNew := sharedLength_le_right old new
  exact ⟨old.length + new.length - 2 * sharedLength old new, by
    unfold Distance
    omega⟩

/-- The parts of a longer sequence and of one that follows its first item end
alike. -/
theorem commonSuffix_cons_pos
    (item : α) {items : List α} (nonempty : items ≠ []) :
    0 < commonSuffix (item :: items) items ∧ 0 < commonSuffix items (item :: items) := by
  have longer := length_le_commonPrefix_append items.reverse [item] []
  have shorter := length_le_commonPrefix_append items.reverse [] [item]
  have positive := List.length_pos_of_ne_nil nonempty
  rw [List.append_nil, List.length_reverse] at longer shorter
  unfold commonSuffix
  rw [List.reverse_cons]
  omega

/-- Sequences that share neither end differ in two items at least. -/
theorem two_le_distance
    {old new : List α} {distance : Nat} (total : Distance old new distance)
    (oldSome : old ≠ []) (newSome : new ≠ [])
    (noFront : commonPrefix old new = 0) (noBack : commonSuffix old new = 0) :
    2 ≤ distance := by
  obtain ⟨a, as, rfl⟩ := List.exists_cons_of_ne_nil oldSome
  obtain ⟨b, bs, rfl⟩ := List.exists_cons_of_ne_nil newSome
  have different : a ≠ b := by
    rintro rfl
    simp [commonPrefix] at noFront
  have shared := sharedLength_cons_of_ne as bs different
  unfold Distance at total
  simp only [List.length_cons] at total
  by_contra small
  rcases Nat.le_total (sharedLength as (b :: bs)) (sharedLength (a :: as) bs)
    with shorter | longer
  · rw [Nat.max_eq_right shorter] at shared
    have atMostOld := sharedLength_le_left (a :: as) bs
    have atMostNew := sharedLength_le_right (a :: as) bs
    rw [List.length_cons] at atMostOld
    have same : a :: as = bs :=
      eq_of_sharedLength (by rw [List.length_cons]; omega) (by omega)
    rw [← same] at noBack
    have positive := (commonSuffix_cons_pos b oldSome).2
    omega
  · rw [Nat.max_eq_left longer] at shared
    have atMostOld := sharedLength_le_left as (b :: bs)
    have atMostNew := sharedLength_le_right as (b :: bs)
    rw [List.length_cons] at atMostNew
    have same : as = b :: bs :=
      eq_of_sharedLength (by omega) (by rw [List.length_cons]; omega)
    rw [same] at noBack
    have positive := (commonSuffix_cons_pos a newSome).1
    omega

theorem meets_iff
    {width d : Nat} {difference : Int} {front : List Nat} {reach : Reach} :
    meets width difference d front reach = true ↔
      ∃ column, columnOn d front (difference - reach.diagonal) = some column ∧
        width ≤ reach.stop + column := by
  unfold meets
  split
  · rename_i column found
    simp [found]
  · rename_i none
    simp [none]

section Meeting

variable {old new : List α} {distance d : Nat} {forward backward : List Nat}
  {reach : Reach}

/-- A point that few enough edits reach from either corner lies on a shortest
path. -/
theorem divides_of_reached
    {x y edits rest : Nat} (total : Distance old new distance)
    (oldInside : x ≤ old.length) (newInside : y ≤ new.length)
    (ahead : Reached old new (edits + 1) x y)
    (behind :
      Reached old.reverse new.reverse (rest + 1) (old.length - x) (new.length - y))
    (few : edits + rest ≤ distance) :
    edits + rest = distance ∧ Divides old new x y ∧
      x + y = edits + 2 * sharedUpTo old new x y := by
  have whole := sharedUpTo_add_behind_le old new x y
  unfold Reached at ahead behind
  rw [sharedUpTo_reverse x y oldInside newInside] at behind
  unfold Distance at total
  exact ⟨by omega, ⟨oldInside, newInside, by omega⟩, by omega⟩

/-- The backward search passes shared items from their end to their start. -/
theorem Reached.slide_back
    {x y edits count : Nat}
    (oldInside : x ≤ old.length) (newInside : y ≤ new.length)
    (shared : commonPrefix (old.drop x) (new.drop y) = count)
    (reached :
      Reached old.reverse new.reverse edits
        (old.length - (x + count)) (new.length - (y + count))) :
    Reached old.reverse new.reverse edits (old.length - x) (new.length - y) := by
  have oldBound := commonPrefix_le_length (old.drop x) (new.drop y)
  have newBound := commonPrefix_le_length_right (old.drop x) (new.drop y)
  have behind := sharedLength_eq_commonPrefix_add (old.drop x) (new.drop y)
  rw [shared, List.length_drop] at oldBound newBound
  rw [shared, List.drop_drop, List.drop_drop] at behind
  unfold Reached at *
  rw [sharedUpTo_reverse _ _ oldInside newInside]
  rw [sharedUpTo_reverse _ _ (by omega) (by omega)] at reached
  omega

theorem forward_meeting
    (total : Distance old new distance) (early : 2 * d ≤ distance + 1)
    (odd : (old.length + new.length) % 2 = 1)
    (isForward : IsFront old new d forward)
    (isBackward : IsFront old.reverse new.reverse d backward)
    (member : reach ∈ reaches old new d forward)
    (meeting :
      meets old.length ((old.length : Int) - new.length) (d - 1) backward reach = true) :
    2 * d = distance + 1 ∧ Divides old new reach.start (rowOf reach.start reach.diagonal) ∧
      reach.start + rowOf reach.start reach.diagonal =
        d + 2 * sharedUpTo old new reach.start (rowOf reach.start reach.diagonal) := by
  obtain ⟨i, found⟩ := List.mem_iff_getElem?.mp member
  obtain ⟨diagonal, entered, stop, _⟩ := isForward.passes found
  obtain ⟨column, known, meets⟩ := meets_iff.mp meeting
  cases d with
  | zero =>
      have none : backward = [] := List.length_eq_zero_iff.mp isBackward.length
      simp [columnOn, none] at known
  | succ earlier =>
      rw [Nat.add_sub_cancel] at known
      have parity :
          ((earlier : Int) - (old.length - new.length - reach.diagonal)) % 2 = 0 := by
        omega
      obtain ⟨near, furthest⟩ := isBackward.furthest_of_columnOn parity known
      have onDiagonal := rowOf_spec entered.inside
      generalize rowOf reach.start reach.diagonal = row at stop onDiagonal ⊢
      have ahead := entered.reached row onDiagonal
      have atMost := sharedUpTo_le_sharedLength old new reach.start row
      have inside : reach.start ≤ old.length ∧ row ≤ new.length := by
        unfold Distance at total
        unfold Reached at ahead
        omega
      obtain ⟨oldInside, newInside⟩ := inside
      have behind :
          Reached old.reverse new.reverse (earlier + 1)
            (old.length - reach.start) (new.length - row) := by
        have oldBound := commonPrefix_le_length (old.drop reach.start) (new.drop row)
        have newBound :=
          commonPrefix_le_length_right (old.drop reach.start) (new.drop row)
        rw [List.length_drop] at oldBound newBound
        apply Reached.slide_back oldInside newInside rfl
        exact (furthest.reached_iff _ _ (by omega)).mpr (by omega)
      obtain ⟨sum, divides, point⟩ :=
        divides_of_reached total oldInside newInside ahead behind (by omega)
      exact ⟨by omega, divides, point⟩

theorem backward_meeting
    (total : Distance old new distance) (early : 2 * d ≤ distance + 1)
    (even : ¬(old.length + new.length) % 2 = 1)
    (isForward : IsFront old new (d + 1) forward)
    (isBackward : IsFront old.reverse new.reverse d backward)
    (member : reach ∈ reaches old.reverse new.reverse d backward)
    (meeting :
      meets old.length ((old.length : Int) - new.length) d forward reach = true) :
    2 * d = distance ∧
      Divides old new (old.length - reach.stop)
        (new.length - rowOf reach.stop reach.diagonal) ∧
      old.length - reach.stop + (new.length - rowOf reach.stop reach.diagonal) =
        d + 2 * sharedUpTo old new (old.length - reach.stop)
          (new.length - rowOf reach.stop reach.diagonal) := by
  obtain ⟨i, found⟩ := List.mem_iff_getElem?.mp member
  obtain ⟨diagonal, _, _, passed⟩ := isBackward.passes found
  obtain ⟨column, known, meets⟩ := meets_iff.mp meeting
  have parity :
      ((d : Int) - (old.length - new.length - reach.diagonal)) % 2 = 0 := by
    omega
  obtain ⟨near, furthest⟩ := isForward.furthest_of_columnOn parity known
  have onDiagonal := rowOf_spec passed.inside
  generalize rowOf reach.stop reach.diagonal = row at onDiagonal ⊢
  have behind : Reached old.reverse new.reverse (d + 1) reach.stop row :=
    (passed.reached_iff _ _ onDiagonal).mpr (Nat.le_refl _)
  have atMost := sharedUpTo_le_sharedLength old.reverse new.reverse reach.stop row
  rw [sharedLength_reverse] at atMost
  have inside : reach.stop ≤ old.length ∧ row ≤ new.length := by
    unfold Distance at total
    unfold Reached at behind
    omega
  have ahead :
      Reached old new (d + 1) (old.length - reach.stop) (new.length - row) :=
    (furthest.reached_iff _ _ (by omega)).mpr (by omega)
  have oldRest : old.length - (old.length - reach.stop) = reach.stop := by omega
  have newRest : new.length - (new.length - row) = row := by omega
  obtain ⟨sum, divides, point⟩ :=
    divides_of_reached total (Nat.sub_le _ _) (Nat.sub_le _ _) ahead
      (by rwa [oldRest, newRest])
      (by
        unfold Distance at total
        omega)
  exact ⟨by omega, divides, point⟩

/-- The forward search meets the other one behind half of an odd number of
edits. -/
theorem exists_forward_meeting
    (total : Distance old new distance) (half : 2 * d = distance + 1)
    (isForward : IsFront old new d forward)
    (isBackward : IsFront old.reverse new.reverse d backward) :
    ∃ reach ∈ reaches old new d forward,
      meets old.length ((old.length : Int) - new.length) (d - 1) backward reach = true := by
  unfold Distance at total
  obtain ⟨x, y, divides, point⟩ := exists_divides old new d (by omega)
  obtain ⟨oldInside, newInside, shared⟩ := divides
  have columns := sharedUpTo_le_column old new x y
  have rows := sharedUpTo_le_row old new x y
  obtain ⟨reach, found⟩ :=
    isForward.exists_reach (show y - sharedUpTo old new x y ≤ d by omega)
  obtain ⟨diagonal, _, _, passed⟩ := isForward.passes found
  have onDiagonal : (x : Int) - y = reach.diagonal := by omega
  have ahead : x ≤ reach.stop := by
    apply (passed.reached_iff x y onDiagonal).mp
    unfold Reached
    omega
  obtain ⟨earlier, rfl⟩ : ∃ earlier, d = earlier + 1 := ⟨d - 1, by omega⟩
  have behind :
      Reached old.reverse new.reverse (earlier + 1) (old.length - x) (new.length - y) := by
    unfold Reached
    rw [sharedUpTo_reverse x y oldInside newInside]
    omega
  have near := behind.near
  obtain ⟨column, known⟩ :=
    isBackward.exists_columnOn
      (show ((old.length : Int) - new.length - reach.diagonal).natAbs ≤ earlier by omega)
  obtain ⟨_, furthest⟩ := isBackward.furthest_of_columnOn (by omega) known
  have reached : old.length - x ≤ column :=
    (furthest.reached_iff _ _ (by omega)).mp behind
  exact ⟨reach, List.mem_of_getElem? found, meets_iff.mpr ⟨column, known, by omega⟩⟩

/-- The backward search meets the other one behind half of an even number of
edits. -/
theorem exists_backward_meeting
    (total : Distance old new distance) (half : 2 * d = distance)
    (isForward : IsFront old new (d + 1) forward)
    (isBackward : IsFront old.reverse new.reverse d backward) :
    ∃ reach ∈ reaches old.reverse new.reverse d backward,
      meets old.length ((old.length : Int) - new.length) d forward reach = true := by
  unfold Distance at total
  obtain ⟨x, y, divides, point⟩ := exists_divides old new d (by omega)
  obtain ⟨oldInside, newInside, shared⟩ := divides
  have ahead : Reached old new (d + 1) x y := by
    unfold Reached
    omega
  have behind :
      Reached old.reverse new.reverse (d + 1) (old.length - x) (new.length - y) := by
    unfold Reached
    rw [sharedUpTo_reverse x y oldInside newInside]
    omega
  have columns := sharedLength_le_left (old.drop x) (new.drop y)
  have rows := sharedLength_le_right (old.drop x) (new.drop y)
  rw [List.length_drop] at columns rows
  obtain ⟨reach, found⟩ :=
    isBackward.exists_reach
      (show new.length - y - sharedLength (old.drop x) (new.drop y) ≤ d by omega)
  obtain ⟨diagonal, _, _, passed⟩ := isBackward.passes found
  have onDiagonal :
      ((old.length - x : Nat) : Int) - (new.length - y : Nat) = reach.diagonal := by
    omega
  have stop : old.length - x ≤ reach.stop :=
    (passed.reached_iff _ _ onDiagonal).mp behind
  have near := ahead.near
  obtain ⟨column, known⟩ :=
    isForward.exists_columnOn
      (show ((old.length : Int) - new.length - reach.diagonal).natAbs ≤ d by omega)
  obtain ⟨_, furthest⟩ := isForward.furthest_of_columnOn (by omega) known
  have reached : x ≤ column := (furthest.reached_iff x y (by omega)).mp ahead
  exact ⟨reach, List.mem_of_getElem? found, meets_iff.mpr ⟨column, known, by omega⟩⟩

end Meeting

/-! ## The search -/

/-- As long as no more than half of the edits have been made, the search finds
a point behind half of them. -/
theorem searchMiddle_divides
    {old new : List α} {distance rounds d : Nat} {forward backward : List Nat}
    (total : Distance old new distance) (early : 2 * d ≤ distance + 1)
    (enough : distance + 1 < 2 * (rounds + d))
    (isForward : IsFront old new d forward)
    (isBackward : IsFront old.reverse new.reverse d backward) :
    ∃ x y, searchMiddle old new old.reverse new.reverse rounds d forward backward =
        some (x, y) ∧
      Divides old new x y ∧
      x + y = (distance + 1) / 2 + 2 * sharedUpTo old new x y := by
  induction rounds generalizing d forward backward with
  | zero => omega
  | succ rounds inductionHypothesis =>
      have sum := total
      unfold Distance at sum
      simp only [searchMiddle]
      split
      · rename_i reach found
        have member := List.mem_of_find?_eq_some found
        have meeting := List.find?_some found
        simp only [Bool.and_eq_true, beq_iff_eq] at meeting
        obtain ⟨half, divides, point⟩ :=
          forward_meeting total early meeting.1 isForward isBackward member meeting.2
        exact ⟨_, _, rfl, divides, by omega⟩
      · rename_i noneAhead
        have isNext := isForward.next
        split
        · rename_i reach found
          have member := List.mem_of_find?_eq_some found
          have meeting := List.find?_some found
          simp only [Bool.and_eq_true, Bool.not_eq_true', beq_eq_false_iff_ne] at meeting
          obtain ⟨half, divides, point⟩ :=
            backward_meeting total early meeting.1 isNext isBackward member meeting.2
          exact ⟨_, _, rfl, divides, by omega⟩
        · rename_i noneBehind
          have notOdd : 2 * d ≠ distance + 1 := by
            intro half
            obtain ⟨reach, member, meeting⟩ :=
              exists_forward_meeting total half isForward isBackward
            have odd : (old.length + new.length) % 2 = 1 := by omega
            have absent := List.find?_eq_none.mp noneAhead reach member
            simp [odd, meeting] at absent
          have notEven : 2 * d ≠ distance := by
            intro half
            obtain ⟨reach, member, meeting⟩ :=
              exists_backward_meeting total half isNext isBackward
            have even : ¬(old.length + new.length) % 2 = 1 := by omega
            have absent := List.find?_eq_none.mp noneBehind reach member
            simp [even, meeting] at absent
          exact inductionHypothesis (by omega) (by omega) isNext isBackward.next

/-- The middle snake lies on a shortest path, behind half of its edits. -/
theorem middleSnake_divides
    {old new : List α} {distance : Nat} (total : Distance old new distance) :
    ∃ x y, middleSnake old new = some (x, y) ∧ Divides old new x y ∧
      x + y = (distance + 1) / 2 + 2 * sharedUpTo old new x y := by
  have sum := total
  unfold Distance at sum
  exact searchMiddle_divides total (Nat.zero_le _) (by omega) (isFront_nil old new)
    (isFront_nil old.reverse new.reverse)

end ReviewDiff.LineDiff

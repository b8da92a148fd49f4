import ReviewDiff.LineDiff.Script

/-!
# The path of a script

A script walks through the grid of old and new items.  Every operation stands
at a point, the numbers of old and new items behind it, and leads to the next
one.  `Leads` says that each operation records where it stands on the sides
that it touches:

* a kept run records both positions, and its items are the same on both sides;
* a deletion records its old position and an insertion its new one.

The position on the other side is left open, because the clean-up pass does
not maintain it.  The main result is `leads_script`: the script between two
sequences leads from the start of both to the end of both.
-/

namespace ReviewDiff.LineDiff

/-- How many old and how many new items lie behind. -/
abbrev Point := Nat × Nat

variable {α : Type}

/-- The `count` items that follow a point are the same on both sides. -/
structure SameRun (old new : List α) (point : Point) (count : Nat) : Prop where
  oldBound : 0 < count → point.1 + count ≤ old.length
  newBound : 0 < count → point.2 + count ≤ new.length
  same : ∀ k, k < count → old[point.1 + k]? = new[point.2 + k]?

namespace SameRun

variable {old new : List α} {point : Point}

theorem zero (old new : List α) (point : Point) : SameRun old new point 0 :=
  ⟨fun positive => absurd positive (Nat.lt_irrefl 0),
    fun positive => absurd positive (Nat.lt_irrefl 0),
    fun k small => absurd small (Nat.not_lt_zero k)⟩

theorem sub
    {count : Nat}
    (run : SameRun old new point count)
    (skip : Nat) {kept : Nat}
    (inside : skip + kept ≤ count) :
    SameRun old new (point.1 + skip, point.2 + skip) kept where
  oldBound := by
    intro positive
    have bound := run.oldBound (by omega)
    simp only
    omega
  newBound := by
    intro positive
    have bound := run.newBound (by omega)
    simp only
    omega
  same := by
    intro k small
    have atShifted := run.same (skip + k) (by omega)
    simpa only [Nat.add_assoc] using atShifted

theorem take
    {count : Nat}
    (run : SameRun old new point count) {kept : Nat}
    (inside : kept ≤ count) :
    SameRun old new point kept := by
  simpa using run.sub 0 (by omega : 0 + kept ≤ count)

theorem join
    {first second : Nat}
    (front : SameRun old new point first)
    (back : SameRun old new (point.1 + first, point.2 + first) second) :
    SameRun old new point (first + second) where
  oldBound := by
    intro positive
    by_cases empty : second = 0
    · have bound := front.oldBound (by omega)
      omega
    · have bound := back.oldBound (Nat.pos_of_ne_zero empty)
      simp only at bound
      omega
  newBound := by
    intro positive
    by_cases empty : second = 0
    · have bound := front.newBound (by omega)
      omega
    · have bound := back.newBound (Nat.pos_of_ne_zero empty)
      simp only at bound
      omega
  same := by
    intro k small
    by_cases early : k < first
    · exact front.same k early
    · have later := back.same (k - first) (by omega)
      have shift : first + (k - first) = k := by omega
      simpa only [Nat.add_assoc, shift] using later

theorem items_eq
    {count : Nat}
    (run : SameRun old new point count) :
    (old.drop point.1).take count = (new.drop point.2).take count := by
  apply List.ext_getElem?
  intro k
  by_cases small : k < count
  · simpa [List.getElem?_take, small] using run.same k small
  · rw [List.getElem?_take, List.getElem?_take, if_neg small, if_neg small]

end SameRun

/-! ## Chains -/

section Chains

variable {β : Type} {stands : Point → β → Prop} {past : Point → β → Point}

/-- Every item stands at the point to which the one before it leads. -/
def Chains (stands : Point → β → Prop) (past : Point → β → Point) :
    Point → List β → Point → Prop
  | start, [], finish => start = finish
  | start, item :: items, finish =>
      stands start item ∧ Chains stands past (past start item) items finish

theorem chains_append
    {start finish : Point} {front back : List β} :
    Chains stands past start (front ++ back) finish ↔
      ∃ middle, Chains stands past start front middle ∧
        Chains stands past middle back finish := by
  induction front generalizing start with
  | nil =>
      simp [Chains]
  | cons item items inductionHypothesis =>
      simp only [List.cons_append, Chains, inductionHypothesis]
      constructor
      · rintro ⟨standing, middle, first, second⟩
        exact ⟨middle, ⟨standing, first⟩, second⟩
      · rintro ⟨middle, ⟨standing, first⟩, second⟩
        exact ⟨standing, middle, first, second⟩

theorem chains_singleton
    {start finish : Point} {item : β} :
    Chains stands past start [item] finish ↔
      stands start item ∧ past start item = finish :=
  Iff.rfl

end Chains

/-! ## Operations at a point -/

/-- The point behind an operation. -/
def Op.past (point : Point) (op : Op) : Point :=
  (point.1 + op.oldLength, point.2 + op.newLength)

/-- An operation records where it stands on the sides that it touches. -/
def Op.StandsAt (old new : List α) (point : Point) (op : Op) : Prop :=
  0 < op.length ∧
    match op.kind with
    | .keep => op.old = point.1 ∧ op.new = point.2 ∧ SameRun old new point op.length
    | .delete => op.old = point.1 ∧ op.old + op.length ≤ old.length
    | .insert => op.new = point.2 ∧ op.new + op.length ≤ new.length

/-- The operations lead from one point to another. -/
abbrev Leads (old new : List α) : Point → List Op → Point → Prop :=
  Chains (Op.StandsAt old new) Op.past

theorem leads_append
    {old new : List α} {start finish : Point} {front back : List Op} :
    Leads old new start (front ++ back) finish ↔
      ∃ middle, Leads old new start front middle ∧
        Leads old new middle back finish :=
  chains_append

theorem leads_singleton
    {old new : List α} {start finish : Point} {op : Op} :
    Leads old new start [op] finish ↔
      op.StandsAt old new start ∧ op.past start = finish :=
  chains_singleton

/-! ## Runs -/

theorem leads_run_keep
    {old new : List α} {point : Point} {count : Nat}
    (run : SameRun old new point count) :
    Leads old new point (LineDiff.run .keep point.1 point.2 count)
      (point.1 + count, point.2 + count) := by
  unfold LineDiff.run
  by_cases empty : count = 0
  · simp [empty, Chains]
  · rw [if_neg empty]
    exact leads_singleton.mpr ⟨⟨Nat.pos_of_ne_zero empty, rfl, rfl, run⟩, rfl⟩

theorem leads_run_delete
    {old : List α} (new : List α) {i j count : Nat}
    (bound : i + count ≤ old.length) (recorded : Nat) :
    Leads old new (i, j) (run .delete i recorded count) (i + count, j) := by
  unfold run
  by_cases empty : count = 0
  · simp [empty, Chains]
  · rw [if_neg empty]
    exact leads_singleton.mpr ⟨⟨Nat.pos_of_ne_zero empty, rfl, bound⟩, rfl⟩

theorem leads_run_insert
    (old : List α) {new : List α} {i j count : Nat}
    (bound : j + count ≤ new.length) (recorded : Nat) :
    Leads old new (i, j) (run .insert recorded j count) (i, j + count) := by
  unfold run
  by_cases empty : count = 0
  · simp [empty, Chains]
  · rw [if_neg empty]
    exact leads_singleton.mpr ⟨⟨Nat.pos_of_ne_zero empty, rfl, bound⟩, rfl⟩

/-! ## Shared items at either end -/

section CommonEnds

variable [DecidableEq α]

theorem commonPrefix_le_length_right
    (old new : List α) :
    commonPrefix old new ≤ new.length := by
  fun_induction commonPrefix old new with
  | case1 a as bs inductionHypothesis =>
      exact Nat.succ_le_succ inductionHypothesis
  | case2 => exact Nat.zero_le _
  | case3 => exact Nat.zero_le _

theorem commonSuffix_le_length_right
    (old new : List α) :
    commonSuffix old new ≤ new.length := by
  simpa [commonSuffix] using
    commonPrefix_le_length_right old.reverse new.reverse

theorem getElem?_eq_of_lt_commonPrefix
    {old new : List α} {k : Nat}
    (shared : k < commonPrefix old new) :
    old[k]? = new[k]? := by
  fun_induction commonPrefix old new generalizing k with
  | case1 a as bs inductionHypothesis =>
      cases k with
      | zero => rfl
      | succ k =>
          simpa using inductionHypothesis (by omega)
  | case2 => omega
  | case3 => omega

/-- Counted from where the shared tails begin, the items agree. -/
theorem getElem?_eq_of_lt_commonSuffix
    {old new : List α} {k : Nat}
    (shared : k < commonSuffix old new) :
    old[old.length - commonSuffix old new + k]? =
      new[new.length - commonSuffix old new + k]? := by
  have oldBound := commonSuffix_le_length old new
  have newBound := commonSuffix_le_length_right old new
  let fromEnd := commonSuffix old new - 1 - k
  have mirrored : old.reverse[fromEnd]? = new.reverse[fromEnd]? :=
    getElem?_eq_of_lt_commonPrefix (by
      change fromEnd < commonSuffix old new
      omega)
  rw [List.getElem?_reverse (by omega),
    List.getElem?_reverse (by omega)] at mirrored
  have oldIndex :
      old.length - 1 - fromEnd = old.length - commonSuffix old new + k := by
    omega
  have newIndex :
      new.length - 1 - fromEnd = new.length - commonSuffix old new + k := by
    omega
  rwa [oldIndex, newIndex] at mirrored

end CommonEnds

/-! ## Scripts -/

/-- A part of a sequence, found behind its first `offset` items. -/
structure LiesAt (part whole : List α) (offset : Nat) : Prop where
  bound : offset + part.length ≤ whole.length
  items : ∀ k, k < part.length → whole[offset + k]? = part[k]?

namespace LiesAt

variable {part whole : List α} {offset : Nat}

theorem whole_zero (whole : List α) : LiesAt whole whole 0 :=
  ⟨by simp, fun k _ => by rw [Nat.zero_add]⟩

theorem drop
    (lies : LiesAt part whole offset) {count : Nat}
    (inside : count ≤ part.length) :
    LiesAt (part.drop count) whole (offset + count) where
  bound := by
    have bound := lies.bound
    simp only [List.length_drop]
    omega
  items := by
    intro k small
    rw [List.length_drop] at small
    rw [List.getElem?_drop, Nat.add_assoc]
    exact lies.items (count + k) (by omega)

theorem take
    (lies : LiesAt part whole offset) (count : Nat) :
    LiesAt (part.take count) whole offset where
  bound := by
    have bound := lies.bound
    simp only [List.length_take]
    omega
  items := by
    intro k small
    rw [List.length_take] at small
    rw [List.getElem?_take_of_lt (by omega)]
    exact lies.items k (by omega)

/-- Items shared by two parts are shared by the sequences around them. -/
theorem sameRun
    {old oldWhole new newWhole : List α} {i j x y count : Nat}
    (oldLies : LiesAt old oldWhole i) (newLies : LiesAt new newWhole j)
    (oldInside : x + count ≤ old.length)
    (newInside : y + count ≤ new.length)
    (shared : ∀ k, k < count → old[x + k]? = new[y + k]?) :
    SameRun oldWhole newWhole (i + x, j + y) count where
  oldBound := by
    intro _
    have bound := oldLies.bound
    simp only
    omega
  newBound := by
    intro _
    have bound := newLies.bound
    simp only
    omega
  same := by
    intro k small
    have oldItem := oldLies.items (x + k) (by omega)
    have newItem := newLies.items (y + k) (by omega)
    simp only [Nat.add_assoc]
    rw [oldItem, newItem]
    exact shared k small

end LiesAt

section Scripts

variable [DecidableEq α]

theorem scriptFrom_nil_left
    (i j : Nat) (new : List α) :
    scriptFrom i j [] new = run .insert i j new.length := by
  rw [scriptFrom]
  simp [commonPrefix, commonSuffix, run]

theorem scriptFrom_nil_right
    (i j : Nat) (old : List α) :
    scriptFrom i j old [] = run .delete i j old.length := by
  rw [scriptFrom]
  cases old <;> simp [commonPrefix, commonSuffix, run]

/-- What two sequences have between the items that they share at either
end. -/
def between (old new : List α) : List α × List α :=
  let front := commonPrefix old new
  let back := commonSuffix (old.drop front) (new.drop front)
  ((old.drop front).take (old.length - front - back),
    (new.drop front).take (new.length - front - back))

/-- The script of two sequences that share neither end. -/
def splitOrReplace (i j : Nat) (old new : List α) : List Op :=
  let replace := run .delete i j old.length ++ run .insert (i + old.length) j new.length
  if old.isEmpty || new.isEmpty then replace
  else match middleSnake old new with
    | some (x, y) =>
        if 0 < (old.take x).length + (new.take y).length ∧
            0 < (old.drop x).length + (new.drop y).length then
          scriptFrom i j (old.take x) (new.take y) ++
            scriptFrom (i + x) (j + y) (old.drop x) (new.drop y)
        else replace
    | none => replace

theorem scriptFrom_eq_keep (i j : Nat) (old new : List α) :
    scriptFrom i j old new =
      run .keep i j (commonPrefix old new) ++
        splitOrReplace (i + commonPrefix old new) (j + commonPrefix old new)
          (between old new).1 (between old new).2 ++
        run .keep (i + commonPrefix old new + (between old new).1.length)
          (j + commonPrefix old new + (between old new).2.length)
          (commonSuffix (old.drop (commonPrefix old new))
            (new.drop (commonPrefix old new))) := by
  rw [scriptFrom]
  rfl

theorem length_between (old new : List α) :
    (between old new).1.length +
          commonSuffix (old.drop (commonPrefix old new)) (new.drop (commonPrefix old new)) =
        (old.drop (commonPrefix old new)).length ∧
      (between old new).2.length +
          commonSuffix (old.drop (commonPrefix old new)) (new.drop (commonPrefix old new)) =
        (new.drop (commonPrefix old new)).length := by
  have backOld :=
    commonSuffix_le_length (old.drop (commonPrefix old new)) (new.drop (commonPrefix old new))
  have backNew :=
    commonSuffix_le_length_right
      (old.drop (commonPrefix old new)) (new.drop (commonPrefix old new))
  simp only [between, List.length_take, List.length_drop] at *
  omega

/-- Two scripts on either side of a split point.  A point beyond the end of
one side is harmless: nothing is left of that side then, so that the second
script records no position on it. -/
private theorem leads_split
    {oldWhole newWhole : List α} {i j : Nat} {old new : List α} {x y : Nat}
    {front : List Op}
    (oldLies : LiesAt old oldWhole i) (newLies : LiesAt new newWhole j)
    (first :
      Leads oldWhole newWhole (i, j) front
        (i + (old.take x).length, j + (new.take y).length))
    (second :
      x ≤ old.length → y ≤ new.length →
        Leads oldWhole newWhole (i + x, j + y)
          (scriptFrom (i + x) (j + y) (old.drop x) (new.drop y))
          (i + old.length, j + new.length))
    (progress : 0 < (old.drop x).length + (new.drop y).length) :
    Leads oldWhole newWhole (i, j)
      (front ++ scriptFrom (i + x) (j + y) (old.drop x) (new.drop y))
      (i + old.length, j + new.length) := by
  refine leads_append.mpr ⟨_, first, ?_⟩
  simp only [List.length_drop] at progress
  by_cases oldInside : x ≤ old.length
  · by_cases newInside : y ≤ new.length
    · rw [List.length_take_of_le oldInside, List.length_take_of_le newInside]
      exact second oldInside newInside
    · have nothingLeft : new.drop y = [] := List.drop_of_length_le (by omega)
      have takesAll : (new.take y).length = new.length := by
        rw [List.length_take]
        omega
      rw [nothingLeft, scriptFrom_nil_right, takesAll,
        List.length_take_of_le oldInside]
      have tail := (oldLies.drop oldInside).bound
      have run := leads_run_delete newWhole (j := j + new.length) tail (j + y)
      simpa [Nat.add_assoc, Nat.add_sub_cancel' oldInside] using run
  · have nothingLeft : old.drop x = [] := List.drop_of_length_le (by omega)
    have newInside : y ≤ new.length := by omega
    have takesAll : (old.take x).length = old.length := by
      rw [List.length_take]
      omega
    rw [nothingLeft, scriptFrom_nil_left, takesAll,
      List.length_take_of_le newInside]
    have tail := (newLies.drop newInside).bound
    have run := leads_run_insert oldWhole (i := i + old.length) tail (i + x)
    simpa [Nat.add_assoc, Nat.add_sub_cancel' newInside] using run

section Ends

variable {old oldWhole new newWhole : List α} {i j : Nat}

private theorem leads_front
    (oldLies : LiesAt old oldWhole i) (newLies : LiesAt new newWhole j) :
    Leads oldWhole newWhole (i, j) (run .keep i j (commonPrefix old new))
      (i + commonPrefix old new, j + commonPrefix old new) := by
  have frontOld := commonPrefix_le_length old new
  have frontNew := commonPrefix_le_length_right old new
  have shared :
      SameRun oldWhole newWhole (i + 0, j + 0) (commonPrefix old new) := by
    apply oldLies.sameRun newLies (by omega) (by omega)
    intro k small
    simpa using getElem?_eq_of_lt_commonPrefix small
  exact leads_run_keep shared

private theorem leads_back
    (oldLies : LiesAt old oldWhole i) (newLies : LiesAt new newWhole j) {x y : Nat}
    (oldEnd : x + commonSuffix old new = old.length)
    (newEnd : y + commonSuffix old new = new.length) :
    Leads oldWhole newWhole (i + x, j + y)
      (run .keep (i + x) (j + y) (commonSuffix old new))
      (i + old.length, j + new.length) := by
  have oldStart : old.length - commonSuffix old new = x := by omega
  have newStart : new.length - commonSuffix old new = y := by omega
  have shared : SameRun oldWhole newWhole (i + x, j + y) (commonSuffix old new) := by
    apply oldLies.sameRun newLies (by omega) (by omega)
    intro k small
    have tails := getElem?_eq_of_lt_commonSuffix small
    rwa [oldStart, newStart] at tails
  have run := leads_run_keep shared
  rwa [Nat.add_assoc, Nat.add_assoc, oldEnd, newEnd] at run

/-- What is shared at either end leads up to what lies between, and on from
there. -/
private theorem leads_of_between
    (oldLies : LiesAt old oldWhole i) (newLies : LiesAt new newWhole j)
    (inner :
      Leads oldWhole newWhole (i + commonPrefix old new, j + commonPrefix old new)
        (splitOrReplace (i + commonPrefix old new) (j + commonPrefix old new)
          (between old new).1 (between old new).2)
        (i + commonPrefix old new + (between old new).1.length,
          j + commonPrefix old new + (between old new).2.length)) :
    Leads oldWhole newWhole (i, j) (scriptFrom i j old new)
      (i + old.length, j + new.length) := by
  have frontOld := commonPrefix_le_length old new
  have frontNew := commonPrefix_le_length_right old new
  obtain ⟨oldRest, newRest⟩ := length_between old new
  have back :=
    leads_back (oldLies.drop frontOld) (newLies.drop frontNew) oldRest newRest
  have oldEnd :
      i + commonPrefix old new + (old.drop (commonPrefix old new)).length =
        i + old.length := by
    rw [List.length_drop]
    omega
  have newEnd :
      j + commonPrefix old new + (new.drop (commonPrefix old new)).length =
        j + new.length := by
    rw [List.length_drop]
    omega
  rw [oldEnd, newEnd] at back
  rw [scriptFrom_eq_keep]
  exact leads_append.mpr
    ⟨_, leads_append.mpr ⟨_, leads_front oldLies newLies, inner⟩, back⟩

private theorem leads_splitOrReplace
    (oldLies : LiesAt old oldWhole i) (newLies : LiesAt new newWhole j)
    (parts :
      ∀ {i j : Nat} {before behind : List α},
        before.length + behind.length < old.length + new.length →
        LiesAt before oldWhole i → LiesAt behind newWhole j →
        Leads oldWhole newWhole (i, j) (scriptFrom i j before behind)
          (i + before.length, j + behind.length)) :
    Leads oldWhole newWhole (i, j) (splitOrReplace i j old new)
      (i + old.length, j + new.length) := by
  have replaced :
      Leads oldWhole newWhole (i, j)
        (run .delete i j old.length ++ run .insert (i + old.length) j new.length)
        (i + old.length, j + new.length) :=
    leads_append.mpr
      ⟨(i + old.length, j), leads_run_delete newWhole oldLies.bound j,
        leads_run_insert oldWhole newLies.bound _⟩
  unfold splitOrReplace
  split
  · exact replaced
  · cases middleSnake old new with
    | none => exact replaced
    | some point =>
        obtain ⟨x, y⟩ := point
        simp only
        split
        · rename_i progress
          have oldParts : (old.take x).length + (old.drop x).length = old.length := by
            rw [← List.length_append, List.take_append_drop]
          have newParts : (new.take y).length + (new.drop y).length = new.length := by
            rw [← List.length_append, List.take_append_drop]
          apply leads_split oldLies newLies
          · exact parts (by omega) (oldLies.take x) (newLies.take y)
          · intro oldInside newInside
            have rest :=
              parts (by omega) (oldLies.drop oldInside) (newLies.drop newInside)
            have oldEnd : i + x + (old.drop x).length = i + old.length := by
              rw [List.length_drop]
              omega
            have newEnd : j + y + (new.drop y).length = j + new.length := by
              rw [List.length_drop]
              omega
            rwa [oldEnd, newEnd] at rest
          · exact progress.2
        · exact replaced

end Ends

/-- The script between two parts leads from the start of both to the end of
both. -/
theorem leads_scriptFrom
    {oldWhole newWhole : List α} {i j : Nat} {old new : List α}
    (oldLies : LiesAt old oldWhole i) (newLies : LiesAt new newWhole j) :
    Leads oldWhole newWhole (i, j) (scriptFrom i j old new)
      (i + old.length, j + new.length) := by
  induction size : old.length + new.length using Nat.strongRecOn
    generalizing i j old new with
  | ind total inductionHypothesis =>
      have oldBetween :
          LiesAt (between old new).1 oldWhole (i + commonPrefix old new) :=
        (oldLies.drop (commonPrefix_le_length old new)).take _
      have newBetween :
          LiesAt (between old new).2 newWhole (j + commonPrefix old new) :=
        (newLies.drop (commonPrefix_le_length_right old new)).take _
      obtain ⟨oldRest, newRest⟩ := length_between old new
      rw [List.length_drop] at oldRest newRest
      refine leads_of_between oldLies newLies (leads_splitOrReplace oldBetween newBetween ?_)
      intro i j before behind smaller beforeLies behindLies
      exact inductionHypothesis _ (by omega) beforeLies behindLies rfl

/-- A script leads from the start of both sequences to the end of both. -/
theorem leads_script
    (old new : List α) :
    Leads old new (0, 0) (script old new) (old.length, new.length) := by
  simpa [script] using
    leads_scriptFrom (LiesAt.whole_zero old) (LiesAt.whole_zero new)

end Scripts

end ReviewDiff.LineDiff

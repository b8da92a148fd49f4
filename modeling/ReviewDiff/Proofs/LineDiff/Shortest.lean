import Mathlib.Algebra.Order.Ring.Nat
import ReviewDiff.Proofs.LineDiff.Listing
import ReviewDiff.Proofs.LineDiff.Middle

/-!
# Shortest diffs

The hunks of two contents remove and add as few lines as any diff can.  The
script splits what lies between shared ends at a point of a shortest path, and
never replaces it as a whole (`exists_splits`).  The clean-up pass, the
segments and the clusters keep the number of changed items.
-/

namespace ReviewDiff.LineDiff

/-! ## Changed items -/

/-- The number of items that an operation deletes or inserts. -/
def Op.changes (op : Op) : Nat :=
  if op.kind = .keep then 0 else op.length

/-- The number of items that operations delete or insert. -/
def changeCount (ops : List Op) : Nat :=
  (ops.map Op.changes).sum

section Counts

theorem changes_of_keep {op : Op} (keeps : op.kind = .keep) : op.changes = 0 :=
  if_pos keeps

theorem changes_of_change {op : Op} (changes : op.kind ≠ .keep) :
    op.changes = op.length :=
  if_neg changes

@[simp]
theorem changeCount_nil : changeCount [] = 0 :=
  rfl

@[simp]
theorem changeCount_cons (op : Op) (ops : List Op) :
    changeCount (op :: ops) = op.changes + changeCount ops :=
  rfl

@[simp]
theorem changeCount_append (front back : List Op) :
    changeCount (front ++ back) = changeCount front + changeCount back := by
  simp [changeCount]

@[simp]
theorem changeCount_reverse (ops : List Op) :
    changeCount ops.reverse = changeCount ops := by
  simp [changeCount, List.sum_reverse]

theorem changeCount_run_keep (i j count : Nat) :
    changeCount (run .keep i j count) = 0 := by
  unfold run
  split <;> rfl

theorem changeCount_run_change
    {kind : Kind} (change : kind ≠ .keep) (i j count : Nat) :
    changeCount (run kind i j count) = count := by
  unfold run
  split
  · rename_i empty
    exact empty.symm
  · rw [changeCount_cons, changes_of_change change]
    rfl

end Counts

/-! ## Scripts -/

section Scripts

variable {α : Type} [DecidableEq α]

theorem commonPrefix_between (old new : List α) :
    commonPrefix (between old new).1 (between old new).2 = 0 := by
  have behind := commonPrefix_behind old new
  have atMost (m n : Nat) :=
    commonPrefix_take_le
      (old.drop (commonPrefix old new)) (new.drop (commonPrefix old new)) m n
  rw [behind] at atMost
  exact Nat.le_zero.mp (atMost _ _)

theorem commonSuffix_between (old new : List α) :
    commonSuffix (between old new).1 (between old new).2 = 0 := by
  have before :=
    commonSuffix_before (old.drop (commonPrefix old new)) (new.drop (commonPrefix old new))
  rwa [List.length_drop, List.length_drop] at before

/-- Shared ends add as much to what is shared as to both lengths. -/
theorem sharedLength_between (old new : List α) :
    ∃ ends,
      sharedLength old new =
          sharedLength (between old new).1 (between old new).2 + ends ∧
        old.length = (between old new).1.length + ends ∧
        new.length = (between old new).2.length + ends := by
  have front := sharedLength_eq_commonPrefix_add old new
  have frontOld := commonPrefix_le_length old new
  have frontNew := commonPrefix_le_length_right old new
  unfold between
  generalize commonPrefix old new = count at front frontOld frontNew ⊢
  have back := sharedLength_eq_add_commonSuffix (old.drop count) (new.drop count)
  have backOld := commonSuffix_le_length (old.drop count) (new.drop count)
  have backNew := commonSuffix_le_length_right (old.drop count) (new.drop count)
  simp only [List.length_drop] at back backOld backNew
  simp only [List.length_take, List.length_drop]
  refine ⟨count + commonSuffix (old.drop count) (new.drop count), ?_, ?_, ?_⟩
  · omega
  · omega
  · omega

theorem scriptFrom_of_apart
    (i j : Nat) {old new : List α}
    (noFront : commonPrefix old new = 0) (noBack : commonSuffix old new = 0) :
    scriptFrom i j old new = splitOrReplace i j old new := by
  have whole : between old new = (old, new) := by
    unfold between
    simp [noFront, noBack]
  rw [scriptFrom_eq_keep, whole, noFront, List.drop_zero, List.drop_zero, noBack]
  simp [run]

/-- A point at which the script of two sequences is split, such that either
part has fewer items than the whole. -/
structure Splits (i j : Nat) (old new : List α) (x y : Nat) : Prop where
  found : middleSnake old new = some (x, y)
  divides : Divides old new x y
  advances : 0 < x + y
  leaves : x + y < old.length + new.length
  script_eq :
    scriptFrom i j old new =
      scriptFrom i j (old.take x) (new.take y) ++
        scriptFrom (i + x) (j + y) (old.drop x) (new.drop y)

theorem exists_splits
    (i j : Nat) {old new : List α} (oldSome : old ≠ []) (newSome : new ≠ [])
    (noFront : commonPrefix old new = 0) (noBack : commonSuffix old new = 0) :
    ∃ x y, Splits i j old new x y := by
  obtain ⟨distance, total⟩ := exists_distance old new
  obtain ⟨x, y, found, divides, point⟩ := middleSnake_divides total
  have many := two_le_distance total oldSome newSome noFront noBack
  have oldInside := divides.oldInside
  have newInside := divides.newInside
  have shared := divides.shared
  have columns := sharedLength_le_left (old.drop x) (new.drop y)
  have rows := sharedLength_le_right (old.drop x) (new.drop y)
  rw [List.length_drop] at columns rows
  have advances : 0 < x + y := by omega
  have leaves : x + y < old.length + new.length := by
    unfold Distance at total
    omega
  refine ⟨x, y, found, divides, advances, leaves, ?_⟩
  have both : ¬(old.isEmpty || new.isEmpty) = true := by
    simp [oldSome, newSome]
  have progress :
      0 < (old.take x).length + (new.take y).length ∧
        0 < (old.drop x).length + (new.drop y).length := by
    simp only [List.length_take, List.length_drop]
    omega
  rw [scriptFrom_of_apart i j noFront noBack, splitOrReplace, if_neg both, found]
  exact if_pos progress

/-- How a script comes about: the shared ends are kept, and what lies between
them is split at a point inside unless one side is used up. -/
structure SplitsBetween (i j : Nat) (old new : List α) : Prop where
  ends :
    scriptFrom i j old new =
      run .keep i j (commonPrefix old new) ++
        scriptFrom (i + commonPrefix old new) (j + commonPrefix old new)
          (between old new).1 (between old new).2 ++
        run .keep (i + commonPrefix old new + (between old new).1.length)
          (j + commonPrefix old new + (between old new).2.length)
          (commonSuffix (old.drop (commonPrefix old new))
            (new.drop (commonPrefix old new)))
  inside :
    (between old new).1 = [] ∨ (between old new).2 = [] ∨
      ∃ x y,
        Splits (i + commonPrefix old new) (j + commonPrefix old new)
          (between old new).1 (between old new).2 x y

theorem scriptFrom_splitsBetween (i j : Nat) (old new : List α) :
    SplitsBetween i j old new where
  ends := by
    rw [scriptFrom_of_apart _ _ (commonPrefix_between old new)
      (commonSuffix_between old new)]
    exact scriptFrom_eq_keep i j old new
  inside := by
    by_cases noOld : (between old new).1 = []
    · exact Or.inl noOld
    · by_cases noNew : (between old new).2 = []
      · exact Or.inr (Or.inl noNew)
      · exact Or.inr (Or.inr (exists_splits _ _ noOld noNew
          (commonPrefix_between old new) (commonSuffix_between old new)))

/-- The script changes just the items outside of a longest shared
subsequence. -/
theorem changeCount_scriptFrom (i j : Nat) (old new : List α) :
    changeCount (scriptFrom i j old new) + 2 * sharedLength old new =
      old.length + new.length := by
  induction size : old.length + new.length using Nat.strongRecOn
    generalizing i j old new with
  | ind total inductionHypothesis =>
      obtain ⟨ends, shared, oldLength, newLength⟩ := sharedLength_between old new
      obtain ⟨script, inside⟩ := scriptFrom_splitsBetween i j old new
      rw [script, changeCount_append, changeCount_append, changeCount_run_keep,
        changeCount_run_keep]
      generalize i + commonPrefix old new = i' at inside ⊢
      generalize j + commonPrefix old new = j' at inside ⊢
      generalize (between old new).1 = a at *
      generalize (between old new).2 = b at *
      have apart :
          changeCount (scriptFrom i' j' a b) + 2 * sharedLength a b =
            a.length + b.length := by
        rcases inside with noOld | noNew | ⟨x, y, splits⟩
        · rw [noOld, scriptFrom_nil_left, changeCount_run_change (by decide),
            sharedLength_nil_left, List.length_nil, Nat.zero_add, Nat.mul_zero,
            Nat.add_zero]
        · rw [noNew, scriptFrom_nil_right, changeCount_run_change (by decide),
            sharedLength_nil_right, List.length_nil, Nat.mul_zero]
        · have advances := splits.advances
          have leaves := splits.leaves
          obtain ⟨oldInside, newInside, divided⟩ := splits.divides
          have partSizes :
              (a.take x).length + (b.take y).length = x + y ∧
                (a.drop x).length + (b.drop y).length =
                  a.length + b.length - (x + y) := by
            simp only [List.length_take, List.length_drop]
            omega
          have before :=
            inductionHypothesis _ (by omega) i' j' (a.take x) (b.take y) rfl
          have behind :=
            inductionHypothesis _ (by omega) (i' + x) (j' + y) (a.drop x) (b.drop y) rfl
          rw [splits.script_eq, changeCount_append]
          unfold sharedUpTo at divided
          omega
      omega

theorem changeCount_script (old new : List α) :
    changeCount (script old new) + 2 * sharedLength old new =
      old.length + new.length :=
  changeCount_scriptFrom 0 0 old new

/-! ## The clean-up pass -/

theorem changeCount_consUnlessEmpty (op : Op) (ops : List Op) :
    changeCount (consUnlessEmpty op ops) = op.changes + changeCount ops := by
  unfold consUnlessEmpty
  split
  · rename_i empty
    have none : op.changes = 0 := by
      unfold Op.changes
      split
      · rfl
      · exact empty
    rw [none, Nat.zero_add]
  · exact changeCount_cons op ops

theorem changeCount_keepAfter
    {gap : Op} (keeps : gap.kind = .keep) (count : Nat) (ops : List Op) :
    changeCount (keepAfter gap count ops) = changeCount ops := by
  cases ops with
  | nil =>
      rw [keepAfter, changeCount_cons, changes_of_keep keeps]
      rfl
  | cons next rest =>
      simp only [keepAfter]
      split
      · rename_i nextKeeps
        have grownKeeps : (next.growLeft count).kind = .keep := nextKeeps
        rw [changeCount_cons, changeCount_cons, changes_of_keep grownKeeps,
          changes_of_keep nextKeeps]
      · rw [changeCount_cons, changes_of_keep keeps, Nat.zero_add]

theorem changeCount_keepBefore
    {gap : Op} (keeps : gap.kind = .keep) (count : Nat) (ops : List Op) :
    changeCount (keepBefore gap count ops) = changeCount ops := by
  cases ops with
  | nil =>
      rw [keepBefore, changeCount_cons, changes_of_keep keeps]
      rfl
  | cons previous rest =>
      simp only [keepBefore]
      split
      · rename_i previousKeeps
        have grownKeeps : (previous.growRight count).kind = .keep := previousKeeps
        rw [changeCount_cons, changeCount_cons, changes_of_keep grownKeeps,
          changes_of_keep previousKeeps]
      · rw [changeCount_cons, changes_of_keep keeps, Nat.zero_add]

theorem changes_unite
    {first second : Op} (same : first.kind = second.kind) :
    (first.growRight second.length).changes = first.changes + second.changes := by
  unfold Op.changes Op.growRight
  simp only [← same]
  split <;> rfl

/-- The number of changed items at a place and around it. -/
theorem changeCount_place (place : Place) :
    changeCount place.ops =
      changeCount place.before + (place.focus.changes + changeCount place.after) := by
  rw [Place.ops, changeCount_append, changeCount_reverse, changeCount_cons]

theorem changeCount_moveUp
    (old new : List α) (before : List Op) (focus : Op) (after : List Op) :
    changeCount (moveUp old new before focus after).ops =
      changeCount before + (focus.changes + changeCount after) := by
  fun_induction moveUp old new before focus after with
  | case1 => exact changeCount_place _
  | case2 => exact changeCount_place _
  | case3 focus after previous rest changes keeps count positive gap inductionHypothesis =>
      have droppedKeeps : (previous.dropRight count).kind = .keep := keeps
      have gapKeeps : gap.kind = .keep := rfl
      rw [inductionHypothesis, changeCount_consUnlessEmpty,
        changeCount_keepAfter gapKeeps, changeCount_cons, changes_of_keep keeps,
        changes_of_keep droppedKeeps]
      rfl
  | case4 focus after previous rest changes keeps count stuck empty inductionHypothesis =>
      rw [inductionHypothesis, changeCount_cons, changes_of_keep keeps, Nat.zero_add]
  | case5 => exact changeCount_place _
  | case6 focus after previous rest changes _ same inductionHypothesis =>
      rw [inductionHypothesis, changes_unite same, changeCount_cons]
      omega
  | case7 focus after previous rest changes _ different inductionHypothesis =>
      rw [inductionHypothesis, changeCount_cons, changeCount_cons]
      omega

theorem changeCount_moveDown
    (old new : List α) (before : List Op) (focus : Op) (after : List Op) :
    changeCount (moveDown old new before focus after).ops =
      changeCount before + (focus.changes + changeCount after) := by
  fun_induction moveDown old new before focus after with
  | case1 => exact changeCount_place _
  | case2 => exact changeCount_place _
  | case3 before focus next rest changes keeps count positive gap inductionHypothesis =>
      have droppedKeeps : (next.dropLeft count).kind = .keep := keeps
      have gapKeeps : gap.kind = .keep := rfl
      rw [inductionHypothesis, changeCount_consUnlessEmpty,
        changeCount_keepBefore gapKeeps, changeCount_cons, changes_of_keep keeps,
        changes_of_keep droppedKeeps]
      rfl
  | case4 before focus next rest changes keeps count stuck empty inductionHypothesis =>
      rw [inductionHypothesis, changeCount_cons, changes_of_keep keeps, Nat.zero_add]
  | case5 => exact changeCount_place _
  | case6 before focus next rest changes _ same inductionHypothesis =>
      rw [inductionHypothesis, changes_unite same.symm, changeCount_cons, Nat.add_assoc]
  | case7 before focus next rest changes _ different inductionHypothesis =>
      rw [inductionHypothesis, changeCount_cons, changeCount_cons]
      omega

theorem changeCount_settleFrom
    (old new : List α) (kind : Kind) (change : kind ≠ .keep) (before after : List Op) :
    changeCount (settleFrom old new kind change before after) =
      changeCount before + changeCount after := by
  fun_induction settleFrom old new kind change before after with
  | case1 before => exact changeCount_reverse before
  | case2 before op rest same place inductionHypothesis =>
      have settled :
          changeCount place.ops = changeCount before + changeCount (op :: rest) := by
        simp only [place, resettle]
        rw [changeCount_moveDown, ← changeCount_place, changeCount_moveUp]
        rfl
      rw [inductionHypothesis, ← settled, changeCount_place, changeCount_cons]
      omega
  | case3 before op rest different inductionHypothesis =>
      rw [inductionHypothesis, changeCount_cons, changeCount_cons]
      omega

/-- The clean-up pass keeps the number of changed items. -/
theorem changeCount_settle (old new : List α) (ops : List Op) :
    changeCount (settle old new ops) = changeCount ops := by
  rw [settle, changeCount_settleFrom, changeCount_settleFrom, changeCount_nil,
    Nat.zero_add, Nat.zero_add]

end Scripts

/-! ## Segments -/

/-- The number of items that a segment deletes and inserts. -/
def Segment.changes (segment : Segment) : Nat :=
  if segment.kept then 0 else segment.oldLength + segment.newLength

/-- The length of a run, if there is one. -/
def runLength : Option Op → Nat
  | none => 0
  | some op => op.length

theorem runLength_joinRun (run : Option Op) (op : Op) :
    runLength (some (joinRun run op)) = runLength run + op.length := by
  cases run with
  | none => exact (Nat.zero_add _).symm
  | some first => rfl

theorem sum_changes_changed (deleted inserted : Option Op) :
    ((Pending.changed deleted inserted).segment.map Segment.changes).sum =
      runLength deleted + runLength inserted := by
  cases deleted <;> cases inserted <;>
    simp [Pending.segment, Segment.changes, runLength]

theorem sum_changes_kept (op : Op) :
    ((Pending.kept op).segment.map Segment.changes).sum = 0 :=
  rfl

theorem sum_changes_ofOp (op : Op) :
    ((Pending.ofOp op).segment.map Segment.changes).sum = op.changes := by
  unfold Pending.ofOp
  cases kind : op.kind with
  | keep => rw [sum_changes_kept, changes_of_keep kind]
  | delete =>
      rw [sum_changes_changed, changes_of_change (by simp [kind])]
      rfl
  | insert =>
      rw [sum_changes_changed, changes_of_change (by simp [kind])]
      exact Nat.zero_add op.length

theorem sum_changes_joined
    {pending joined : Pending} {op : Op} (joins : pending.joined? op = some joined) :
    (joined.segment.map Segment.changes).sum =
      (pending.segment.map Segment.changes).sum + op.changes := by
  unfold Pending.joined? at joins
  cases kind : op.kind with
  | keep =>
      rw [kind] at joins
      rw [changes_of_keep kind]
      cases pending with
      | kept first =>
          cases joins
          rfl
      | nothing | changed => cases joins
  | delete =>
      rw [kind] at joins
      rw [changes_of_change (by simp [kind])]
      cases pending with
      | changed deleted inserted =>
          cases joins
          rw [sum_changes_changed, sum_changes_changed, runLength_joinRun]
          exact Nat.add_right_comm _ _ _
      | nothing | kept => cases joins
  | insert =>
      rw [kind] at joins
      rw [changes_of_change (by simp [kind])]
      cases pending with
      | changed deleted inserted =>
          cases joins
          rw [sum_changes_changed, sum_changes_changed, runLength_joinRun]
          exact (Nat.add_assoc _ _ _).symm
      | nothing | kept => cases joins

/-- The segments change what the operations change. -/
theorem sum_changes_segmentsFrom (pending : Pending) (ops : List Op) :
    ((segmentsFrom pending ops).map Segment.changes).sum =
      (pending.segment.map Segment.changes).sum + changeCount ops := by
  induction ops generalizing pending with
  | nil => rfl
  | cons op rest inductionHypothesis =>
      rw [segmentsFrom_cons, changeCount_cons]
      cases joins : pending.joined? op with
      | some joined =>
          simp only
          rw [inductionHypothesis, sum_changes_joined joins, Nat.add_assoc]
      | none =>
          simp only
          rw [List.map_append, List.sum_append, inductionHypothesis, sum_changes_ofOp]

/-! ## Lines -/

/-- The number of removed and added lines. -/
def changedLines (lines : List TaggedLine) : Nat :=
  lines.countP (·.tag ≠ .context)

theorem changedLines_append (front back : List TaggedLine) :
    changedLines (front ++ back) = changedLines front + changedLines back :=
  List.countP_append

theorem changedLines_asContext (lines : List Line) :
    changedLines (asContext lines) = 0 := by
  simp [changedLines, asContext]

theorem changedLines_tagged {tag : Tag} (changes : tag ≠ .context) (lines : List Line) :
    changedLines (lines.map (⟨tag, ·⟩)) = lines.length := by
  simp [changedLines, List.countP_map, changes]

section Lines

variable {old new : List Line} {start finish : Point}

theorem changedLines_segment
    {segment : Segment} (stands : segment.StandsAt old new start) :
    changedLines (segment.lines old new) = segment.changes := by
  cases kept : segment.kept with
  | true =>
      rw [lines_kept old new kept, changedLines_asContext, Segment.changes, if_pos kept]
  | false =>
      obtain ⟨_, oldSide, newSide⟩ := (standsAt_changed kept).mp stands
      simp only [Segment.lines, Segment.changes, kept, Bool.false_eq_true, if_false]
      rw [changedLines_append, changedLines_tagged (by decide),
        changedLines_tagged (by decide)]
      simp only [List.length_take, List.length_drop]
      omega

theorem changedLines_covered
    {parts : List Segment} (covers : Covers old new start parts finish) :
    changedLines (parts.flatMap (·.lines old new)) =
      (parts.map Segment.changes).sum := by
  induction parts generalizing start with
  | nil => rfl
  | cons segment rest inductionHypothesis =>
      obtain ⟨stands, onward⟩ := covers
      rw [List.flatMap_cons, changedLines_append, changedLines_segment stands,
        inductionHypothesis onward, List.map_cons, List.sum_cons]

/-- The listing changes as many lines as the script. -/
theorem changedLines_listing (old new : List Line) :
    changedLines (listing old new) = changeCount (script old new) := by
  rw [listing, changedLines_covered (covers_script old new), segments,
    sum_changes_segmentsFrom, changeCount_settle]
  exact Nat.zero_add _

theorem changedLines_weaveTagged
    (tail : List Line) (blocks : List (List Line × Hunk)) :
    changedLines (weaveTagged tail blocks) =
      changedLines ((blocks.map Prod.snd).flatMap Hunk.lines) := by
  induction blocks with
  | nil => exact changedLines_asContext tail
  | cons block rest inductionHypothesis =>
      rw [weaveTagged, changedLines_append, changedLines_append,
        changedLines_asContext, inductionHypothesis, List.map_cons, List.flatMap_cons,
        changedLines_append, Nat.zero_add]

/-- Hunks leave out no changed line. -/
theorem changedLines_hunksOfLines (old new : List Line) :
    changedLines ((hunksOfLines old new).flatMap Hunk.lines) =
      changedLines (listing old new) := by
  obtain ⟨layout, same, _⟩ := exists_layout_listing old new
  rw [← same, Layout.listing, changedLines_weaveTagged, layout.hunks_eq]

end Lines

/-! ## The number of changed lines -/

/-- No subsequence that two lists share is longer. -/
structure LongestShared {α : Type} (common old new : List α) : Prop where
  inOld : common.Sublist old
  inNew : common.Sublist new
  longest : ∀ other : List α, other.Sublist old → other.Sublist new →
    other.length ≤ common.length

theorem exists_longestShared {α : Type} [DecidableEq α] (old new : List α) :
    ∃ common, LongestShared common old new ∧
      common.length = sharedLength old new := by
  obtain ⟨common, inOld, inNew, length⟩ := exists_shared old new
  refine ⟨common, ⟨inOld, inNew, ?_⟩, length⟩
  intro other otherOld otherNew
  rw [length]
  exact length_le_sharedLength otherOld otherNew

/-- The hunks of two contents remove and add just the lines outside of a
longest subsequence that both share, and no call of the recursion replaces a
block of lines as a whole. -/
theorem hunks_are_shortest (old new : Bytes) :
    (∃ common, LongestShared common (splitLines old) (splitLines new) ∧
      changedLines ((hunks old new).flatMap Hunk.lines) + 2 * common.length =
        (splitLines old).length + (splitLines new).length) ∧
    ∀ (i j : Nat) (a b : List Line), SplitsBetween i j a b := by
  constructor
  · obtain ⟨common, longest, length⟩ :=
      exists_longestShared (splitLines old) (splitLines new)
    refine ⟨common, longest, ?_⟩
    rw [hunks, changedLines_hunksOfLines, changedLines_listing, length]
    exact changeCount_script (splitLines old) (splitLines new)
  · exact scriptFrom_splitsBetween

end ReviewDiff.LineDiff

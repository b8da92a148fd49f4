import ReviewDiff.LineDiff.Unified
import ReviewDiff.Proofs.LineDiff.Clusters

/-!
# Where hunks lie

A `Layout` of hunks in two lists of lines puts a block of unshown lines before
every hunk and one after the last.  The blocks are the same on both sides:
with the old lines of the hunks they make up the old side, with the new lines
the new side.  The hunks of two contents always have a layout, so that nothing
is lost, and there are none exactly when the contents are equal.
-/

namespace ReviewDiff.LineDiff

/-- One side of two lists of lines: the unshown lines before each hunk, the
lines of the hunk on that side, and the unshown lines behind the last hunk. -/
def weave (side : Hunk → List Line) (tail : List Line) :
    List (List Line × Hunk) → List Line
  | [] => tail
  | (gap, hunk) :: rest => gap ++ side hunk ++ weave side tail rest

theorem weave_append
    (side : Hunk → List Line) (tail gap : List Line) (hunk : Hunk)
    (before after : List (List Line × Hunk)) :
    weave side tail (before ++ (gap, hunk) :: after) =
      weave side gap before ++ side hunk ++ weave side tail after := by
  induction before with
  | nil => rfl
  | cons block rest inductionHypothesis =>
      simp only [List.cons_append, weave, inductionHypothesis,
        List.append_assoc]

/-- Blocks of unshown lines that make two lists of lines out of hunks. -/
structure Layout (old new : List Line) (hunks : List Hunk) where
  blocks : List (List Line × Hunk)
  tail : List Line
  hunks_eq : blocks.map Prod.snd = hunks
  old_eq : old = weave Hunk.oldLines tail blocks
  new_eq : new = weave Hunk.newLines tail blocks

/-! ## Slices -/

section Slices

variable {α : Type}

/-- The items from one position up to another. -/
def slice (whole : List α) (start stop : Nat) : List α :=
  (whole.drop start).take (stop - start)

theorem slice_self (whole : List α) (start : Nat) :
    slice whole start start = [] := by
  simp [slice]

theorem slice_whole (whole : List α) :
    slice whole 0 whole.length = whole := by
  simp [slice]

theorem slice_append
    (whole : List α) {start middle stop : Nat}
    (first : start ≤ middle) (second : middle ≤ stop) :
    slice whole start middle ++ slice whole middle stop =
      slice whole start stop := by
  have lengths : stop - start = (middle - start) + (stop - middle) := by omega
  have offset : start + (middle - start) = middle := by omega
  rw [slice, slice, slice, lengths, List.take_add, List.drop_drop, offset]

theorem length_slice
    {whole : List α} (start : Nat) {stop : Nat}
    (bound : stop ≤ whole.length) :
    (slice whole start stop).length = stop - start := by
  simp only [slice, List.length_take, List.length_drop]
  omega

theorem SameRun.slice_eq
    {old new : List α} {point : Point} {count : Nat}
    (run : SameRun old new point count) :
    slice old point.1 (point.1 + count) = slice new point.2 (point.2 + count) := by
  simpa [slice] using run.items_eq

theorem chains_le
    {β : Type} {stands : Point → β → Prop} {past : Point → β → Point}
    (grows : ∀ point item, point.1 ≤ (past point item).1 ∧ point.2 ≤ (past point item).2)
    {start finish : Point} {items : List β}
    (chains : Chains stands past start items finish) :
    start.1 ≤ finish.1 ∧ start.2 ≤ finish.2 := by
  induction items generalizing start with
  | nil =>
      obtain rfl : start = finish := chains
      exact ⟨Nat.le_refl _, Nat.le_refl _⟩
  | cons item rest inductionHypothesis =>
      have step := grows start item
      have further := inductionHypothesis chains.2
      exact ⟨Nat.le_trans step.1 further.1, Nat.le_trans step.2 further.2⟩

end Slices

/-! ## One side of tagged lines -/

section Sides

/-- The lines without those of one tag. -/
def untag (hidden : Tag) (lines : List TaggedLine) : List Line :=
  (lines.filter (·.tag ≠ hidden)).map (·.line)

theorem untag_append
    (hidden : Tag) (front back : List TaggedLine) :
    untag hidden (front ++ back) = untag hidden front ++ untag hidden back := by
  simp only [untag, List.filter_append, List.map_append]

theorem untag_map_self
    (hidden : Tag) (lines : List Line) :
    untag hidden (lines.map (⟨hidden, ·⟩)) = [] := by
  simp [untag]

theorem untag_map_of_ne
    {hidden tag : Tag} (shown : tag ≠ hidden) (lines : List Line) :
    untag hidden (lines.map (⟨tag, ·⟩)) = lines := by
  induction lines with
  | nil => rfl
  | cons line rest inductionHypothesis =>
      have head : untag hidden [⟨tag, line⟩] = [line] := by
        simp [untag, shown]
      rw [List.map_cons, ← List.singleton_append, untag_append, head,
        inductionHypothesis]
      rfl

end Sides

/-! ## The lines of a cluster -/

section Clusters

variable {old new : List Line} {start finish : Point}

theorem covers_le
    {parts : List Segment} (covers : Covers old new start parts finish) :
    start.1 ≤ finish.1 ∧ start.2 ≤ finish.2 :=
  chains_le (fun _ _ => ⟨Nat.le_add_right _ _, Nat.le_add_right _ _⟩) covers

theorem spaced_le
    {groups : List (List Segment)} (spaced : Spaced old new start groups finish) :
    start.1 ≤ finish.1 ∧ start.2 ≤ finish.2 := by
  induction spaced with
  | done run => exact ⟨Nat.le_add_right _ _, Nat.le_add_right _ _⟩
  | next run nonempty covers _ inductionHypothesis =>
      have within := covers_le covers
      simp only at within
      omega

/-- The lines of a segment on the old side. -/
theorem untag_lines_old
    {segment : Segment} (stands : segment.StandsAt old new start) :
    untag .added (segment.lines old new) =
      slice old start.1 (segment.past start).1 := by
  simp only [slice, Segment.past, Nat.add_sub_cancel_left]
  cases kept : segment.kept with
  | true =>
      obtain ⟨oldStart, _⟩ := (standsAt_kept kept).mp stands
      simp only [Segment.lines, kept, if_true, oldStart]
      exact untag_map_of_ne (by decide) _
  | false =>
      obtain ⟨_, oldSide, _⟩ := (standsAt_changed kept).mp stands
      rw [Segment.lines, kept, if_neg Bool.false_ne_true, untag_append,
        untag_map_self, untag_map_of_ne (by decide), List.append_nil]
      by_cases empty : segment.oldLength = 0
      · simp only [empty, List.take_zero]
      · rw [(oldSide (Nat.pos_of_ne_zero empty)).1]

/-- The lines of a segment on the new side. -/
theorem untag_lines_new
    {segment : Segment} (stands : segment.StandsAt old new start) :
    untag .removed (segment.lines old new) =
      slice new start.2 (segment.past start).2 := by
  simp only [slice, Segment.past, Nat.add_sub_cancel_left]
  cases kept : segment.kept with
  | true =>
      obtain ⟨oldStart, _, lengths, run⟩ := (standsAt_kept kept).mp stands
      simp only [Segment.lines, kept, if_true, oldStart, lengths]
      rw [run.items_eq]
      exact untag_map_of_ne (by decide) _
  | false =>
      obtain ⟨_, _, newSide⟩ := (standsAt_changed kept).mp stands
      rw [Segment.lines, kept, if_neg Bool.false_ne_true, untag_append,
        untag_map_self, untag_map_of_ne (by decide), List.nil_append]
      by_cases empty : segment.newLength = 0
      · simp only [empty, List.take_zero]
      · rw [(newSide (Nat.pos_of_ne_zero empty)).1]

/-- The lines of a cluster on either side. -/
theorem untag_cluster
    {cluster : List Segment} (covers : Covers old new start cluster finish) :
    untag .added (cluster.flatMap (·.lines old new)) =
        slice old start.1 finish.1 ∧
      untag .removed (cluster.flatMap (·.lines old new)) =
        slice new start.2 finish.2 := by
  induction cluster generalizing start with
  | nil =>
      obtain rfl : start = finish := covers
      rw [slice_self, slice_self]
      exact ⟨rfl, rfl⟩
  | cons segment rest inductionHypothesis =>
      obtain ⟨stands, onward⟩ := covers
      obtain ⟨oldRest, newRest⟩ := inductionHypothesis onward
      have step := covers_le (chains_singleton.mpr ⟨stands, rfl⟩)
      have within := covers_le onward
      rw [List.flatMap_cons, untag_append, untag_append, oldRest, newRest,
        untag_lines_old stands, untag_lines_new stands,
        slice_append old step.1 within.1, slice_append new step.2 within.2]
      exact ⟨rfl, rfl⟩

theorem lines_ofCluster
    {cluster : List Segment} {hunk : Hunk}
    (found : Hunk.ofCluster old new cluster = some hunk) :
    hunk.lines = cluster.flatMap (·.lines old new) := by
  unfold Hunk.ofCluster at found
  split at found
  · obtain rfl := Option.some.inj found
    rfl
  · exact absurd found (by simp)

theorem exists_ofCluster
    (old new : List Line) {cluster : List Segment} (nonempty : cluster ≠ []) :
    ∃ hunk, Hunk.ofCluster old new cluster = some hunk := by
  have first := List.head?_eq_some_head nonempty
  have last := List.getLast?_eq_some_getLast nonempty
  simp only [Hunk.ofCluster, first, last]
  exact ⟨_, rfl⟩

/-- A cluster that covers something of a script becomes a hunk with the same
lines. -/
theorem exists_hunk
    {cluster : List Segment} (nonempty : cluster ≠ [])
    (covers : Covers old new start cluster finish) :
    ∃ hunk, Hunk.ofCluster old new cluster = some hunk ∧
      hunk.oldLines = slice old start.1 finish.1 ∧
      hunk.newLines = slice new start.2 finish.2 := by
  obtain ⟨hunk, found⟩ := exists_ofCluster old new nonempty
  obtain ⟨oldSide, newSide⟩ := untag_cluster covers
  rw [← lines_ofCluster found] at oldSide newSide
  exact ⟨hunk, found, oldSide, newSide⟩

end Clusters

/-! ## Laying out hunks -/

section Layouts

variable {old new : List Line}

/-- Blocks and clusters side by side: from a point on, every cluster becomes
the hunk of its block and covers exactly its lines. -/
def Places (old new : List Line) :
    Point → List (List Line × Hunk) → List (List Segment) → Prop
  | _, [], [] => True
  | point, (gap, hunk) :: blocks, cluster :: groups =>
      let start := (point.1 + gap.length, point.2 + gap.length)
      let finish :=
        (start.1 + hunk.oldLines.length, start.2 + hunk.newLines.length)
      Hunk.ofCluster old new cluster = some hunk ∧
        Covers old new start cluster finish ∧
        Places old new finish blocks groups
  | _, _, _ => False

theorem exists_blocks
    {start finish : Point} {groups : List (List Segment)}
    (spaced : Spaced old new start groups finish)
    (oldBound : finish.1 ≤ old.length) (newBound : finish.2 ≤ new.length) :
    ∃ blocks tail,
      blocks.map Prod.snd = groups.filterMap (Hunk.ofCluster old new) ∧
        slice old start.1 finish.1 = weave Hunk.oldLines tail blocks ∧
        slice new start.2 finish.2 = weave Hunk.newLines tail blocks ∧
        Places old new start blocks groups := by
  induction spaced with
  | @done start count run =>
      refine ⟨[], slice old start.1 (start.1 + count), rfl, rfl, ?_, trivial⟩
      exact run.slice_eq.symm
  | @next start middle finish count cluster rest run nonempty covers onward
      inductionHypothesis =>
      obtain ⟨blocks, tail, hunks, oldRest, newRest, places⟩ :=
        inductionHypothesis oldBound newBound
      obtain ⟨hunk, found, oldSide, newSide⟩ := exists_hunk nonempty covers
      have within := covers_le covers
      have further := spaced_le onward
      simp only at oldSide newSide within
      let gap := slice old start.1 (start.1 + count)
      have gapLength : gap.length = count := by
        rw [length_slice start.1 (by omega), Nat.add_sub_cancel_left]
      have oldLength : hunk.oldLines.length = middle.1 - (start.1 + count) := by
        rw [oldSide, length_slice _ (by omega)]
      have newLength : hunk.newLines.length = middle.2 - (start.2 + count) := by
        rw [newSide, length_slice _ (by omega)]
      have reaches :
          (start.1 + count + hunk.oldLines.length,
              start.2 + count + hunk.newLines.length) = middle := by
        rw [oldLength, newLength, Nat.add_sub_cancel' within.1,
          Nat.add_sub_cancel' within.2]
      refine ⟨(gap, hunk) :: blocks, tail, ?_, ?_, ?_, found, ?_, ?_⟩
      · rw [List.map_cons, List.filterMap_cons_some found, hunks]
      · rw [weave, ← oldRest, oldSide,
          slice_append old (Nat.le_add_right _ _) within.1,
          slice_append old (by omega) further.1]
      · have sameGap : gap = slice new start.2 (start.2 + count) :=
          run.slice_eq
        rw [weave, ← newRest, newSide, sameGap,
          slice_append new (Nat.le_add_right _ _) within.2,
          slice_append new (by omega) further.2]
      · simp only [gapLength]
        rwa [reaches]
      · simp only [gapLength]
        rwa [reaches]

/-- The hunks between two lists of lines lie in them with blocks of equal
lines around them. -/
theorem exists_layout
    (old new : List Line) :
    ∃ layout : Layout old new (hunksOfLines old new),
      Places old new (0, 0) layout.blocks
        (clusters contextLines (segments (settle old new (script old new)))) := by
  have spaced :=
    spaced_clusters contextLines (isChain_segments _) (covers_script old new)
  obtain ⟨blocks, tail, hunks, oldSide, newSide, places⟩ :=
    exists_blocks spaced (Nat.le_refl _) (Nat.le_refl _)
  rw [slice_whole] at oldSide newSide
  exact ⟨⟨blocks, tail, hunks, oldSide, newSide⟩, places⟩

end Layouts

/-! ## Equal contents -/

section Equal

variable {α : Type} [DecidableEq α]

theorem commonPrefix_self (items : List α) :
    commonPrefix items items = items.length := by
  induction items with
  | nil => rfl
  | cons item rest inductionHypothesis =>
      simp [commonPrefix, inductionHypothesis]

theorem script_self (items : List α) :
    script items items = run .keep 0 0 items.length := by
  rw [script, scriptFrom]
  simp [commonPrefix_self, commonSuffix, run]

theorem settle_keep (old new : List α) (count : Nat) :
    settle old new (run .keep 0 0 count) = run .keep 0 0 count := by
  unfold run
  split
  · simp [settle, settleFrom]
  · simp [settle, settleFrom]

theorem hunksOfLines_self (lines : List Line) :
    hunksOfLines lines lines = [] := by
  rw [hunksOfLines, script_self, settle_keep]
  unfold run
  split
  · rfl
  · simp [segments, segmentsFrom, Pending.segment, clusters_kept]

end Equal

theorem hunks_eq_nil_iff {old new : Bytes} : hunks old new = [] ↔ old = new := by
  constructor
  · intro none
    obtain ⟨layout, _⟩ := exists_layout (splitLines old) (splitLines new)
    have noBlocks : layout.blocks = [] :=
      List.map_eq_nil_iff.mp (layout.hunks_eq.trans none)
    have oldTail := layout.old_eq
    have newTail := layout.new_eq
    rw [noBlocks] at oldTail newTail
    exact splitLines_injective (oldTail.trans newTail.symm)
  · rintro rfl
    exact hunksOfLines_self (splitLines old)

theorem unifiedDiff?_eq
    (old new : Bytes) (oldLabel newLabel : String) :
    unifiedDiff? old new oldLabel newLabel =
      if old = new then none else some ⟨oldLabel, newLabel, hunks old new⟩ := by
  unfold unifiedDiff?
  by_cases same : old = new
  · simp [same, hunks_eq_nil_iff.mpr]
  · rw [if_neg same]
    split
    · rename_i noHunks
      exact absurd (hunks_eq_nil_iff.mp noHunks) same
    · rfl

/-- A diff is written exactly when the contents differ.  Its hunks lose
nothing: with blocks of unshown lines common to both sides, their old lines
make up the old content and their new lines the new one. -/
theorem fileDiff_lossless
    (old new : Bytes) (oldLabel newLabel : String) :
    fileDiff old new oldLabel newLabel =
        (if old = new then none
          else some (UnifiedDiff.render ⟨oldLabel, newLabel, hunks old new⟩)) ∧
      ∃ blocks tail,
        blocks.map Prod.snd = hunks old new ∧
          splitLines old = weave Hunk.oldLines tail blocks ∧
          splitLines new = weave Hunk.newLines tail blocks := by
  constructor
  · rw [fileDiff, unifiedDiff?_eq]
    split <;> rfl
  · obtain ⟨layout, _⟩ := exists_layout (splitLines old) (splitLines new)
    exact ⟨layout.blocks, layout.tail, layout.hunks_eq, layout.old_eq,
      layout.new_eq⟩

end ReviewDiff.LineDiff

import ReviewDiff.Proofs.LineDiff.Layout

/-!
# The listing behind a diff

The *listing* of two lists of lines shows every line of them: context where a
script keeps it, removed or added where the script changes it.  Hunks are
parts of the listing.  What lies between them is context, and between two of
them there is some (`exists_layout_listing`).
-/

namespace ReviewDiff.LineDiff

/-! ## Listings -/

/-- Lines that are on both sides. -/
def asContext (lines : List Line) : List TaggedLine :=
  lines.map (⟨.context, ·⟩)

/-- All lines of both sides, as the settled script tags them. -/
def listing (old new : List Line) : List TaggedLine :=
  (segments (settle old new (script old new))).flatMap (·.lines old new)

/-- The lines of hunks with the unshown lines around them as context. -/
def weaveTagged (tail : List Line) :
    List (List Line × Hunk) → List TaggedLine
  | [] => asContext tail
  | (gap, hunk) :: rest => asContext gap ++ hunk.lines ++ weaveTagged tail rest

/-- All lines of a layout. -/
def Layout.listing
    {old new : List Line} {hunks : List Hunk} (layout : Layout old new hunks) :
    List TaggedLine :=
  weaveTagged layout.tail layout.blocks

theorem untag_asContext
    {hidden : Tag} (changed : hidden ≠ .context) (lines : List Line) :
    untag hidden (asContext lines) = lines :=
  untag_map_of_ne (Ne.symm changed) lines

theorem untag_weaveTagged
    (hidden : Tag) (changed : hidden ≠ .context) (tail : List Line)
    (blocks : List (List Line × Hunk)) :
    untag hidden (weaveTagged tail blocks) =
      weave (fun hunk => untag hidden hunk.lines) tail blocks := by
  induction blocks with
  | nil => exact untag_asContext changed tail
  | cons block rest inductionHypothesis =>
      rw [weaveTagged, weave, untag_append, untag_append,
        untag_asContext changed, inductionHypothesis]

/-! ## Lines of shortened segments -/

section Lines

variable (old new : List Line) (context : Nat) {segment : Segment}

theorem lines_kept (kept : segment.kept = true) :
    segment.lines old new =
      asContext ((old.drop segment.old).take segment.oldLength) := by
  simp only [Segment.lines, kept, if_true, asContext]

theorem lines_first (kept : segment.kept = true) :
    (segment.first context).lines old new =
      asContext (((old.drop segment.old).take segment.oldLength).take context) := by
  have firstKept : (segment.first context).kept = true := kept
  rw [lines_kept old new firstKept, List.take_take, Nat.min_comm]
  rfl

theorem lines_last (kept : segment.kept = true) :
    (segment.last context).lines old new =
      asContext (((old.drop segment.old).take segment.oldLength).drop
        (segment.oldLength - context)) := by
  have lastKept : (segment.last context).kept = true := kept
  rw [lines_kept old new lastKept, List.drop_take, List.drop_drop]
  rfl

theorem asContext_append (front back : List Line) :
    asContext (front ++ back) = asContext front ++ asContext back :=
  List.map_append

/-- Shortening the segment before the first change leaves out context. -/
theorem exists_lines_opening (segment : Segment) :
    ∃ gap, segment.lines old new =
      asContext gap ++ (segment.opening context).lines old new := by
  unfold Segment.opening
  split
  · rename_i kept
    rw [lines_last old new context kept, lines_kept old new kept]
    refine ⟨((old.drop segment.old).take segment.oldLength).take
      (segment.oldLength - context), ?_⟩
    rw [← asContext_append, List.take_append_drop]
  · exact ⟨[], rfl⟩

/-- Shortening the segment after the last change leaves out context. -/
theorem exists_lines_closing (segment : Segment) :
    ∃ gap, segment.lines old new =
      (segment.closing context).lines old new ++ asContext gap := by
  unfold Segment.closing
  split
  · rename_i kept
    rw [lines_first old new context kept, lines_kept old new kept]
    refine ⟨((old.drop segment.old).take segment.oldLength).drop context, ?_⟩
    rw [← asContext_append, List.take_append_drop]
  · exact ⟨[], (List.append_nil _).symm⟩

/-- Trimming leaves out context at both ends. -/
theorem exists_lines_trimmed (parts : List Segment) :
    ∃ gap tail, parts.flatMap (·.lines old new) =
      asContext gap ++
        (trimEnd context (trimStart context parts)).flatMap (·.lines old new) ++
          asContext tail := by
  have atStart :
      ∃ gap, parts.flatMap (·.lines old new) =
        asContext gap ++ (trimStart context parts).flatMap (·.lines old new) := by
    cases parts with
    | nil => exact ⟨[], rfl⟩
    | cons segment rest =>
        obtain ⟨gap, shape⟩ := exists_lines_opening old new context segment
        refine ⟨gap, ?_⟩
        rw [trimStart_cons, List.flatMap_cons, List.flatMap_cons, shape,
          List.append_assoc]
  have atEnd (others : List Segment) :
      ∃ tail, others.flatMap (·.lines old new) =
        (trimEnd context others).flatMap (·.lines old new) ++ asContext tail := by
    rcases List.eq_nil_or_concat others with rfl | ⟨front, segment, rfl⟩
    · exact ⟨[], rfl⟩
    · obtain ⟨tail, shape⟩ := exists_lines_closing old new context segment
      refine ⟨tail, ?_⟩
      rw [List.concat_eq_append, trimEnd_concat, List.flatMap_append,
        List.flatMap_append, List.flatMap_singleton, List.flatMap_singleton,
        shape, List.append_assoc]
  obtain ⟨gap, front⟩ := atStart
  obtain ⟨tail, back⟩ := atEnd (trimStart context parts)
  exact ⟨gap, tail, by rw [front, back, List.append_assoc]⟩

/-- Between the first and the last lines of a long segment there are others. -/
theorem exists_lines_between
    {start : Point} (stands : segment.StandsAt old new start)
    (long : segment.Long context) :
    ∃ gap, gap ≠ [] ∧ segment.lines old new =
      (segment.first context).lines old new ++ asContext gap ++
        (segment.last context).lines old new := by
  obtain ⟨kept, longer⟩ := long
  obtain ⟨oldStart, _, _, run⟩ := (standsAt_kept kept).mp stands
  have bound := run.oldBound (by omega)
  rw [lines_kept old new kept, lines_first old new context kept,
    lines_last old new context kept]
  let shown := (old.drop segment.old).take segment.oldLength
  have count : shown.length = segment.oldLength := by
    simp only [shown, List.length_take, List.length_drop, oldStart]
    omega
  refine ⟨(shown.drop context).take (segment.oldLength - 2 * context), ?_, ?_⟩
  · apply List.ne_nil_of_length_pos
    rw [List.length_take, List.length_drop, count]
    omega
  · have resume :
        context + (segment.oldLength - 2 * context) = segment.oldLength - context := by
      omega
    have rest :
        shown.drop (segment.oldLength - context) =
          (shown.drop context).drop (segment.oldLength - 2 * context) := by
      rw [List.drop_drop, resume]
    rw [← asContext_append, ← asContext_append]
    change asContext shown = asContext (shown.take context ++ _ ++ shown.drop _)
    rw [rest, List.append_assoc, List.take_append_drop, List.take_append_drop]

end Lines

/-! ## The listing of clusters -/

section Listings

variable {old new : List Line} {start finish : Point}

/-- The hunks of cut segments show their lines except for blocks of context,
which are not empty between two hunks. -/
theorem Cut.exists_blocks
    {context : Nat} {parts : List Segment} {groups : List (List Segment)}
    (cut : Cut context parts groups)
    (covers : Covers old new start parts finish) (gap tail : List Line) :
    ∃ hunk rest,
      hunk :: rest.map Prod.snd = groups.filterMap (Hunk.ofCluster old new) ∧
        weaveTagged tail ((gap, hunk) :: rest) =
          asContext gap ++ parts.flatMap (·.lines old new) ++ asContext tail ∧
        ∀ block ∈ rest, block.1 ≠ [] := by
  induction cut generalizing start gap with
  | @whole cluster compact =>
      obtain ⟨hunk, found⟩ := exists_ofCluster old new compact.ne_nil
      refine ⟨hunk, [], ?_, ?_, fun _ member => absurd member List.not_mem_nil⟩
      · rw [List.filterMap_cons_some found]
        rfl
      · rw [weaveTagged, weaveTagged, lines_ofCluster found]
  | @inside front rest long groups nonempty more isLong compact _ inductionHypothesis =>
      obtain ⟨middle, before, stands, onward⟩ := chains_append.mp covers
      obtain ⟨lastStands, lastPast⟩ := standsAt_last isLong.1 stands context
      obtain ⟨hidden, some, shape⟩ := exists_lines_between old new context stands isLong
      rw [← lastPast] at onward
      obtain ⟨next, others, hunks, woven, gaps⟩ :=
        inductionHypothesis ⟨lastStands, onward⟩ hidden
      obtain ⟨hunk, found⟩ := exists_ofCluster old new compact.ne_nil
      refine ⟨hunk, (hidden, next) :: others, ?_, ?_, ?_⟩
      · rw [List.filterMap_cons_some found, ← hunks, List.map_cons]
      · rw [weaveTagged, woven, lines_ofCluster found]
        simp only [List.flatMap_append, List.flatMap_cons, List.flatMap_nil,
          List.append_nil, shape, List.append_assoc]
      · intro block member
        rcases List.mem_cons.mp member with rfl | later
        · exact some
        · exact gaps block later

/-- A layout that shows the listing. -/
theorem exists_layout_of_listing
    {hunks : List Hunk} (blocks : List (List Line × Hunk)) {tail : List Line}
    (shown : blocks.map Prod.snd = hunks)
    (woven : weaveTagged tail blocks = listing old new) :
    ∃ layout : Layout old new hunks,
      layout.blocks = blocks ∧ layout.listing = listing old new := by
  obtain ⟨oldSide, newSide⟩ := untag_cluster (covers_script old new)
  rw [slice_whole] at oldSide newSide
  refine ⟨⟨blocks, tail, shown, ?_, ?_⟩, rfl, woven⟩
  · have side := untag_weaveTagged .added (by decide) tail blocks
    rw [woven, listing, oldSide] at side
    exact side
  · have side := untag_weaveTagged .removed (by decide) tail blocks
    rw [woven, listing, newSide] at side
    exact side

/-- Without a change there is no hunk, and the listing is context. -/
theorem hunksOfLines_of_unchanged
    (unchanged :
      ¬∃ segment ∈ segments (settle old new (script old new)),
        segment.kept = false) :
    hunksOfLines old new = [] ∧ ∃ tail, asContext tail = listing old new := by
  have alternates := isChain_segments (settle old new (script old new))
  constructor
  · rw [hunksOfLines, clusters_of_unchanged contextLines alternates unchanged]
    rfl
  · rw [listing]
    rcases single_of_unchanged alternates unchanged with none | ⟨segment, single, kept⟩
    · rw [none]
      exact ⟨[], rfl⟩
    · rw [single, List.flatMap_singleton, lines_kept old new kept]
      exact ⟨_, rfl⟩

/-- The hunks between two lists of lines lie in their listing.  What is not
shown is context, and between two hunks there is some. -/
theorem exists_layout_listing (old new : List Line) :
    ∃ layout : Layout old new (hunksOfLines old new),
      layout.listing = listing old new ∧
        ∀ block ∈ layout.blocks.tail, block.1 ≠ [] := by
  let parts := segments (settle old new (script old new))
  have covers : Covers old new (0, 0) parts (old.length, new.length) :=
    covers_script old new
  have alternates : parts.IsChain Segment.Alternates := isChain_segments _
  by_cases changes : ∃ segment ∈ parts, segment.kept = false
  · have cut := cut_clusters contextLines alternates changes
    obtain ⟨gap, tail, trimmed⟩ := exists_lines_trimmed old new contextLines parts
    obtain ⟨_, _, fromFirst⟩ := covers_trimStart contextLines covers
    obtain ⟨_, _, toLast, _⟩ := covers_trimEnd contextLines fromFirst
    obtain ⟨hunk, rest, shown, woven, gaps⟩ := cut.exists_blocks toLast gap tail
    rw [← trimmed] at woven
    obtain ⟨layout, blocks, same⟩ :=
      exists_layout_of_listing ((gap, hunk) :: rest) shown woven
    refine ⟨layout, same, ?_⟩
    rw [blocks]
    exact gaps
  · obtain ⟨noHunks, tail, woven⟩ := hunksOfLines_of_unchanged changes
    obtain ⟨layout, blocks, same⟩ :=
      exists_layout_of_listing [] noHunks.symm woven
    refine ⟨layout, same, ?_⟩
    rw [blocks]
    exact fun _ member => absurd member List.not_mem_nil

end Listings

end ReviewDiff.LineDiff

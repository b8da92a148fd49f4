import ReviewDiff.Proofs.LineDiff.Listing

/-!
# The shape of hunks

Every hunk changes something and shows exactly three lines of context before
and after its changes, unless the listing begins or ends earlier.  Inside a
hunk at most six lines of context follow each other, and between two hunks
there is a line that is not shown (`hunks_well_shaped`).

The lengths are read off the segments of a cluster: because segments
alternate, the lines of a kept segment are a whole run of context.
-/

namespace ReviewDiff.LineDiff

/-! ## Runs of context -/

/-- The number of lines of context with which a list of lines begins. -/
def leadingContext (lines : List TaggedLine) : Nat :=
  (lines.takeWhile (·.tag = .context)).length

/-- The number of lines of context with which a list of lines ends. -/
def trailingContext (lines : List TaggedLine) : Nat :=
  leadingContext lines.reverse

section Runs

variable {front : List TaggedLine}

theorem leadingContext_append
    (shared : ∀ shown ∈ front, shown.tag = .context) (back : List TaggedLine) :
    leadingContext (front ++ back) = front.length + leadingContext back := by
  have all : ∀ shown ∈ front, decide (shown.tag = .context) = true :=
    fun shown member => decide_eq_true (shared shown member)
  rw [leadingContext, List.takeWhile_append_of_pos all, List.length_append]
  rfl

theorem leadingContext_of_changed
    (nonempty : front ≠ []) (changed : ∀ shown ∈ front, shown.tag ≠ .context)
    (back : List TaggedLine) :
    leadingContext (front ++ back) = 0 := by
  obtain ⟨shown, others, rfl⟩ := List.exists_cons_of_ne_nil nonempty
  have differs := changed shown List.mem_cons_self
  rw [leadingContext, List.cons_append, List.takeWhile_cons_of_neg (by simpa using differs)]
  rfl

end Runs

/-! ## Context of segments -/

/-- The number of lines of context that a segment gives. -/
def Segment.contextLength (segment : Segment) : Nat :=
  if segment.kept then segment.oldLength else 0

section Context

variable {context : Nat} {segment : Segment}

theorem contextLength_last (kept : segment.kept = true) (context : Nat) :
    (segment.last context).contextLength = min context segment.contextLength := by
  simp only [Segment.contextLength, Segment.last, kept, if_true]
  omega

theorem contextLength_first (kept : segment.kept = true) (context : Nat) :
    (segment.first context).contextLength = min context segment.contextLength := by
  simp only [Segment.contextLength, Segment.first, kept, if_true]
  omega

theorem contextLength_opening (context : Nat) (segment : Segment) :
    (segment.opening context).contextLength = min context segment.contextLength := by
  unfold Segment.opening
  split
  · exact contextLength_last ‹_› context
  · rename_i changed
    simp [Segment.contextLength, changed]

theorem contextLength_closing (context : Nat) (segment : Segment) :
    (segment.closing context).contextLength = min context segment.contextLength := by
  unfold Segment.closing
  split
  · exact contextLength_first ‹_› context
  · rename_i changed
    simp [Segment.contextLength, changed]

theorem contextLength_of_long (long : segment.Long context) :
    min context segment.contextLength = context := by
  obtain ⟨kept, longer⟩ := long
  simp only [Segment.contextLength, kept, if_true]
  omega

theorem contextLength_head_trimmed (context : Nat) (parts : List Segment) :
    (trimEnd context (trimStart context parts)).head?.map Segment.contextLength =
      (parts.head?.map Segment.contextLength).map (min context) := by
  cases parts with
  | nil => rfl
  | cons first rest =>
      rcases List.eq_nil_or_concat rest with rfl | ⟨middle, last, rfl⟩
      · change some ((first.opening context).closing context).contextLength = some _
        rw [contextLength_closing, contextLength_opening, Nat.min_self_assoc]
      · rw [List.concat_eq_append, trimmed_cons_concat]
        change some (first.opening context).contextLength = some _
        rw [contextLength_opening]

theorem contextLength_getLast_trimmed (context : Nat) (parts : List Segment) :
    (trimEnd context (trimStart context parts)).getLast?.map Segment.contextLength =
      (parts.getLast?.map Segment.contextLength).map (min context) := by
  cases parts with
  | nil => rfl
  | cons first rest =>
      rcases List.eq_nil_or_concat rest with rfl | ⟨middle, last, rfl⟩
      · change some ((first.opening context).closing context).contextLength = some _
        rw [contextLength_closing, contextLength_opening, Nat.min_self_assoc]
        rfl
      · rw [List.concat_eq_append, trimmed_cons_concat, ← List.cons_append,
          ← List.cons_append, List.getLast?_concat, List.getLast?_concat]
        change some (last.closing context).contextLength = some _
        rw [contextLength_closing]

end Context

/-! ## Lines of alternating segments -/

/-- A kept segment gives context, and a changed one gives other lines. -/
structure Segment.TaggedBy
    (lines : Segment → List TaggedLine) (segment : Segment) : Prop where
  whenKept :
    segment.kept = true →
      (lines segment).length = segment.oldLength ∧
        ∀ shown ∈ lines segment, shown.tag = .context
  whenChanged :
    segment.kept = false →
      lines segment ≠ [] ∧ ∀ shown ∈ lines segment, shown.tag ≠ .context

theorem Segment.TaggedBy.reverse
    {lines : Segment → List TaggedLine} {segment : Segment}
    (tagged : segment.TaggedBy lines) :
    segment.TaggedBy (List.reverse ∘ lines) where
  whenKept := by
    intro kept
    obtain ⟨length, shared⟩ := tagged.whenKept kept
    exact ⟨List.length_reverse.trans length,
      fun shown member => shared shown (List.mem_reverse.mp member)⟩
  whenChanged := by
    intro changed
    obtain ⟨nonempty, changes⟩ := tagged.whenChanged changed
    exact ⟨fun empty => nonempty (List.reverse_eq_nil_iff.mp empty),
      fun shown member => changes shown (List.mem_reverse.mp member)⟩

section Alternating

variable {lines : Segment → List TaggedLine} {parts : List Segment}

theorem leadingContext_flatMap
    {first : Segment} {rest : List Segment}
    (tagged : ∀ segment ∈ first :: rest, segment.TaggedBy lines)
    (alternates : (first :: rest).IsChain Segment.Alternates) :
    leadingContext ((first :: rest).flatMap lines) = first.contextLength := by
  rw [List.flatMap_cons, Segment.contextLength]
  cases kept : first.kept with
  | false =>
      obtain ⟨nonempty, changed⟩ :=
        (tagged first List.mem_cons_self).whenChanged kept
      rw [leadingContext_of_changed nonempty changed]
      rfl
  | true =>
      obtain ⟨length, shared⟩ := (tagged first List.mem_cons_self).whenKept kept
      have none : leadingContext (rest.flatMap lines) = 0 := by
        cases rest with
        | nil => rfl
        | cons next others =>
            have nextChanged : next.kept = false :=
              (List.isChain_cons_cons.mp alternates).1.right kept
            obtain ⟨nonempty, changed⟩ :=
              (tagged next (by simp)).whenChanged nextChanged
            rw [List.flatMap_cons]
            exact leadingContext_of_changed nonempty changed _
      rw [leadingContext_append shared, none, length]
      rfl

/-- A run of context never reaches beyond the lines of one segment. -/
theorem leadingContext_le
    {bound : Nat}
    (tagged : ∀ segment ∈ parts, segment.TaggedBy lines)
    (alternates : parts.IsChain Segment.Alternates)
    (short : ∀ segment ∈ parts, segment.contextLength ≤ bound)
    {before after : List TaggedLine}
    (split : before ++ after = parts.flatMap lines) :
    leadingContext after ≤ bound := by
  induction parts generalizing before with
  | nil =>
      obtain ⟨_, rfl⟩ := List.append_eq_nil_iff.mp split
      exact Nat.zero_le bound
  | cons segment rest inductionHypothesis =>
      have inRest :
          ∀ {front : List TaggedLine}, front ++ after = rest.flatMap lines →
            leadingContext after ≤ bound :=
        inductionHypothesis (fun other member => tagged other (by simp [member]))
          alternates.tail (fun other member => short other (by simp [member]))
      have own := tagged segment List.mem_cons_self
      rw [List.flatMap_cons] at split
      rcases List.append_eq_append_iff.mp split with
        ⟨shown, inside, rfl⟩ | ⟨passed, _, inside⟩
      · cases kept : segment.kept with
        | true =>
            have whole := leadingContext_flatMap tagged alternates
            obtain ⟨_, shared⟩ := own.whenKept kept
            rw [inside] at shared
            rw [List.flatMap_cons, inside, List.append_assoc,
              leadingContext_append fun line member =>
                shared line (List.mem_append_left shown member)] at whole
            have length := short segment List.mem_cons_self
            omega
        | false =>
            obtain ⟨_, changed⟩ := own.whenChanged kept
            rw [inside] at changed
            by_cases empty : shown = []
            · rw [empty, List.nil_append] at inRest ⊢
              exact inRest (List.nil_append _)
            · rw [leadingContext_of_changed empty fun line member =>
                changed line (List.mem_append_right before member)]
              exact Nat.zero_le bound
      · exact inRest inside.symm

theorem length_run_le
    {bound : Nat}
    (tagged : ∀ segment ∈ parts, segment.TaggedBy lines)
    (alternates : parts.IsChain Segment.Alternates)
    (short : ∀ segment ∈ parts, segment.contextLength ≤ bound)
    {run : List TaggedLine} (inside : run <:+: parts.flatMap lines)
    (shared : ∀ shown ∈ run, shown.tag = .context) :
    run.length ≤ bound := by
  obtain ⟨before, after, split⟩ := inside
  rw [List.append_assoc] at split
  have whole := leadingContext_le tagged alternates short split
  rw [leadingContext_append shared] at whole
  exact Nat.le_trans (Nat.le_add_right _ _) whole

end Alternating

/-! ## Lines of clusters -/

section Clusters

variable {old new : List Line} {point : Point} {segment : Segment}
  {parts : List Segment}

theorem taggedBy_lines (stands : segment.StandsAt old new point) :
    segment.TaggedBy (·.lines old new) where
  whenKept := by
    intro kept
    obtain ⟨oldStart, _, _, run⟩ := (standsAt_kept kept).mp stands
    have bound := run.oldBound
    simp only [lines_kept old new kept, asContext]
    constructor
    · rw [List.length_map, List.length_take, List.length_drop, oldStart]
      omega
    · intro shown member
      obtain ⟨_, _, rfl⟩ := List.mem_map.mp member
      rfl
  whenChanged := by
    intro changed
    obtain ⟨positive, oldSide, newSide⟩ := (standsAt_changed changed).mp stands
    simp only [Segment.lines, changed, Bool.false_eq_true, if_false]
    constructor
    · apply List.ne_nil_of_length_pos
      simp only [List.length_append, List.length_map, List.length_take,
        List.length_drop]
      omega
    · intro shown member
      rcases List.mem_append.mp member with removed | added
      · obtain ⟨_, _, rfl⟩ := List.mem_map.mp removed
        exact fun same => Tag.noConfusion same
      · obtain ⟨_, _, rfl⟩ := List.mem_map.mp added
        exact fun same => Tag.noConfusion same

/-- Segments that alternate and give the lines that they should. -/
structure Standing (old new : List Line) (parts : List Segment) : Prop where
  tagged : ∀ segment ∈ parts, segment.TaggedBy (·.lines old new)
  alternates : parts.IsChain Segment.Alternates

theorem standing_of_covers
    {start finish : Point}
    (covers : Covers old new start parts finish)
    (alternates : parts.IsChain Segment.Alternates) :
    Standing old new parts := by
  refine ⟨?_, alternates⟩
  intro segment member
  obtain ⟨front, back, rfl⟩ := List.mem_iff_append.mp member
  obtain ⟨middle, _, stands, _⟩ := chains_append.mp covers
  exact taggedBy_lines stands

theorem Standing.leadingContext
    (standing : Standing old new parts) (nonempty : parts ≠ []) :
    parts.head?.map Segment.contextLength =
      some (leadingContext (parts.flatMap (·.lines old new))) := by
  obtain ⟨first, rest, rfl⟩ := List.exists_cons_of_ne_nil nonempty
  rw [leadingContext_flatMap standing.tagged standing.alternates]
  rfl

theorem Standing.trailingContext
    (standing : Standing old new parts) (nonempty : parts ≠ []) :
    parts.getLast?.map Segment.contextLength =
      some (trailingContext (parts.flatMap (·.lines old new))) := by
  rw [← List.head?_reverse, LineDiff.trailingContext, List.reverse_flatMap]
  have tagged :
      ∀ segment ∈ parts.reverse,
        segment.TaggedBy (List.reverse ∘ (·.lines old new)) :=
    fun segment member =>
      (standing.tagged segment (List.mem_reverse.mp member)).reverse
  have alternates : parts.reverse.IsChain Segment.Alternates :=
    List.isChain_reverse.mpr (standing.alternates.imp fun _ _ => Or.symm)
  obtain ⟨last, others, order⟩ :=
    List.exists_cons_of_ne_nil (List.reverse_ne_nil_iff.mpr nonempty)
  rw [order] at tagged alternates ⊢
  rw [leadingContext_flatMap tagged alternates]
  rfl

end Clusters

/-! ## Hunks of cut segments -/

section Hunks

variable {old new : List Line} {context : Nat} {parts : List Segment}
  {groups : List (List Segment)}

theorem Spaced.covers_of_mem
    {start finish : Point} (spaced : Spaced old new start groups finish)
    {cluster : List Segment} (member : cluster ∈ groups) :
    ∃ first last, Covers old new first cluster last := by
  induction spaced with
  | done => exact absurd member List.not_mem_nil
  | next _ _ covers _ inductionHypothesis =>
      rcases List.mem_cons.mp member with rfl | later
      · exact ⟨_, _, covers⟩
      · exact inductionHypothesis later

theorem Cut.standing
    {start finish : Point} (cut : Cut context parts groups)
    (spaced : Spaced old new start groups finish) :
    ∀ cluster ∈ groups, Standing old new cluster := by
  intro cluster member
  obtain ⟨_, _, covers⟩ := spaced.covers_of_mem member
  exact standing_of_covers covers (cut.compact cluster member).alternates

theorem Cut.changes
    (cut : Cut context parts groups)
    (standing : ∀ cluster ∈ groups, Standing old new cluster) :
    ∀ hunk ∈ groups.filterMap (Hunk.ofCluster old new),
      ∃ shown ∈ hunk.lines, shown.tag ≠ .context := by
  intro hunk inHunks
  obtain ⟨cluster, member, found⟩ := List.mem_filterMap.mp inHunks
  obtain ⟨segment, inCluster, changed⟩ := (cut.compact cluster member).changes
  have tagged := (standing cluster member).tagged segment inCluster
  obtain ⟨nonempty, differs⟩ := tagged.whenChanged changed
  obtain ⟨shown, others, lines⟩ := List.exists_cons_of_ne_nil nonempty
  have inLines : shown ∈ segment.lines old new := by
    rw [lines]
    exact List.mem_cons_self
  rw [lines_ofCluster found]
  exact ⟨shown, List.mem_flatMap.mpr ⟨segment, inCluster, inLines⟩,
    differs shown inLines⟩

theorem Cut.length_run_le
    (cut : Cut context parts groups)
    (standing : ∀ cluster ∈ groups, Standing old new cluster) :
    ∀ hunk ∈ groups.filterMap (Hunk.ofCluster old new),
      ∀ run, run <:+: hunk.lines → (∀ shown ∈ run, shown.tag = .context) →
        run.length ≤ 2 * context := by
  intro hunk inHunks run inside shared
  obtain ⟨cluster, member, found⟩ := List.mem_filterMap.mp inHunks
  obtain ⟨tagged, alternates⟩ := standing cluster member
  have short : ∀ segment ∈ cluster, segment.contextLength ≤ 2 * context := by
    intro segment inCluster
    have notLong := (cut.compact cluster member).short segment inCluster
    unfold Segment.contextLength
    split
    · rename_i kept
      exact Nat.le_of_not_lt fun longer => notLong ⟨kept, longer⟩
    · exact Nat.zero_le _
  rw [lines_ofCluster found] at inside
  exact LineDiff.length_run_le tagged alternates short inside shared

theorem Cut.leading
    (cut : Cut context parts groups)
    (standing : ∀ cluster ∈ groups, Standing old new cluster) :
    (∀ hunk, (groups.filterMap (Hunk.ofCluster old new)).head? = some hunk →
      parts.head?.map Segment.contextLength = some (leadingContext hunk.lines)) ∧
    ∀ hunk ∈ (groups.filterMap (Hunk.ofCluster old new)).tail,
      leadingContext hunk.lines = context := by
  have compact := cut.compact
  obtain ⟨first, others, rfl, firstHead, otherHeads⟩ := cut.heads
  have begins :
      ∀ cluster ∈ first :: others, ∀ hunk,
        Hunk.ofCluster old new cluster = some hunk →
          cluster.head?.map Segment.contextLength =
            some (leadingContext hunk.lines) := by
    intro cluster member hunk found
    rw [lines_ofCluster found]
    exact (standing cluster member).leadingContext (compact cluster member).ne_nil
  obtain ⟨firstHunk, firstFound⟩ :=
    exists_ofCluster old new (compact first List.mem_cons_self).ne_nil
  rw [List.filterMap_cons_some firstFound]
  constructor
  · intro hunk same
    obtain rfl : firstHunk = hunk := by simpa using same
    rw [← firstHead]
    exact begins first List.mem_cons_self firstHunk firstFound
  · intro hunk inHunks
    obtain ⟨cluster, member, found⟩ := List.mem_filterMap.mp inHunks
    obtain ⟨long, isLong, head⟩ := otherHeads cluster member
    have length := begins cluster (List.mem_cons_of_mem first member) hunk found
    rw [head, Option.map_some, contextLength_last isLong.1 context,
      contextLength_of_long isLong] at length
    exact (Option.some.inj length).symm

theorem Cut.trailing
    (cut : Cut context parts groups)
    (standing : ∀ cluster ∈ groups, Standing old new cluster) :
    (∀ hunk, (groups.filterMap (Hunk.ofCluster old new)).getLast? = some hunk →
      parts.getLast?.map Segment.contextLength =
        some (trailingContext hunk.lines)) ∧
    ∀ hunk ∈ (groups.filterMap (Hunk.ofCluster old new)).dropLast,
      trailingContext hunk.lines = context := by
  have compact := cut.compact
  obtain ⟨others, last, rfl, lastEnd, otherEnds⟩ := cut.lasts
  have ends :
      ∀ cluster ∈ others ++ [last], ∀ hunk,
        Hunk.ofCluster old new cluster = some hunk →
          cluster.getLast?.map Segment.contextLength =
            some (trailingContext hunk.lines) := by
    intro cluster member hunk found
    rw [lines_ofCluster found]
    exact (standing cluster member).trailingContext (compact cluster member).ne_nil
  have lastMember : last ∈ others ++ [last] := by simp
  obtain ⟨lastHunk, lastFound⟩ :=
    exists_ofCluster old new (compact last lastMember).ne_nil
  rw [List.filterMap_append, List.filterMap_cons_some lastFound, List.filterMap_nil,
    List.getLast?_concat, List.dropLast_concat]
  constructor
  · intro hunk same
    obtain rfl : lastHunk = hunk := by simpa using same
    rw [← lastEnd]
    exact ends last lastMember lastHunk lastFound
  · intro hunk inHunks
    obtain ⟨cluster, member, found⟩ := List.mem_filterMap.mp inHunks
    obtain ⟨long, isLong, finish⟩ := otherEnds cluster member
    have length := ends cluster (List.mem_append_left [last] member) hunk found
    rw [finish, Option.map_some, contextLength_first isLong.1 context,
      contextLength_of_long isLong] at length
    exact (Option.some.inj length).symm

end Hunks

/-! ## The shape of a layout -/

/-- Every hunk changes something and has three lines of context on either
side, as far as the listing has them; runs of context inside are short, and
the hunks do not touch. -/
structure Layout.WellShaped
    {old new : List Line} {hunks : List Hunk} (layout : Layout old new hunks) :
    Prop where
  changes : ∀ hunk ∈ hunks, ∃ shown ∈ hunk.lines, shown.tag ≠ .context
  opening :
    ∀ hunk, hunks.head? = some hunk →
      leadingContext hunk.lines = min 3 (leadingContext layout.listing)
  closing :
    ∀ hunk, hunks.getLast? = some hunk →
      trailingContext hunk.lines = min 3 (trailingContext layout.listing)
  leading : ∀ hunk ∈ hunks.tail, leadingContext hunk.lines = 3
  trailing : ∀ hunk ∈ hunks.dropLast, trailingContext hunk.lines = 3
  inner :
    ∀ hunk ∈ hunks, ∀ run, run <:+: hunk.lines →
      (∀ shown ∈ run, shown.tag = .context) → run.length ≤ 6
  apart : ∀ block ∈ layout.blocks.tail, block.1 ≠ []

theorem exists_wellShaped (old new : List Line) :
    ∃ layout : Layout old new (hunksOfLines old new),
      layout.listing = listing old new ∧ layout.WellShaped := by
  obtain ⟨layout, same, gaps⟩ := exists_layout_listing old new
  refine ⟨layout, same, ?_⟩
  let parts := segments (settle old new (script old new))
  have covers : Covers old new (0, 0) parts (old.length, new.length) :=
    covers_script old new
  have alternates : parts.IsChain Segment.Alternates := isChain_segments _
  by_cases changes : ∃ segment ∈ parts, segment.kept = false
  · have cut := cut_clusters contextLines alternates changes
    have standing := cut.standing (spaced_clusters contextLines alternates covers)
    have whole := standing_of_covers covers alternates
    have nonempty : parts ≠ [] := by
      obtain ⟨segment, member, _⟩ := changes
      exact List.ne_nil_of_mem member
    obtain ⟨opening, leading⟩ := cut.leading standing
    obtain ⟨closing, trailing⟩ := cut.trailing standing
    refine ⟨cut.changes standing, ?_, ?_, leading, trailing,
      cut.length_run_le standing, gaps⟩
    · intro hunk found
      have shown := opening hunk found
      rw [contextLength_head_trimmed, whole.leadingContext nonempty] at shown
      rw [same]
      exact (Option.some.inj shown).symm
    · intro hunk found
      have shown := closing hunk found
      rw [contextLength_getLast_trimmed, whole.trailingContext nonempty] at shown
      rw [same]
      exact (Option.some.inj shown).symm
  · obtain ⟨noHunks, _⟩ := hunksOfLines_of_unchanged changes
    have absent : ∀ hunk, hunk ∉ hunksOfLines old new := by
      rw [noHunks]
      exact fun _ => List.not_mem_nil
    exact
      { changes := fun hunk member => absurd member (absent hunk)
        opening := fun hunk found => absurd (List.mem_of_head? found) (absent hunk)
        closing := fun hunk found => absurd (List.mem_of_getLast? found) (absent hunk)
        leading := fun hunk member => absurd (List.mem_of_mem_tail member) (absent hunk)
        trailing := fun hunk member =>
          absurd ((List.dropLast_sublist _).mem member) (absent hunk)
        inner := fun hunk member => absurd member (absent hunk)
        apart := gaps }

/-- Hunks of different contents have the shape that a patch program relies
on; equal contents have none. -/
theorem hunks_well_shaped (old new : Bytes) :
    (hunks old new = [] ↔ old = new) ∧
      ∃ layout : Layout (splitLines old) (splitLines new) (hunks old new),
        layout.listing = listing (splitLines old) (splitLines new) ∧
          layout.WellShaped :=
  ⟨hunks_eq_nil_iff, exists_wellShaped (splitLines old) (splitLines new)⟩

/-- Six kept lines join two changes, and seven keep them apart. -/
example :
    (hunksOfLines [[0], [1], [2], [3], [4], [5], [6], [0]]
        [[1], [2], [3], [4], [5], [6]]).length = 1 ∧
      (hunksOfLines [[0], [1], [2], [3], [4], [5], [6], [7], [0]]
        [[1], [2], [3], [4], [5], [6], [7]]).length = 2 :=
  ⟨by cbv, by cbv⟩

end ReviewDiff.LineDiff

import Mathlib
import ReviewDiff.Proofs.LineDiff.Listing
import ReviewDiff.Proofs.Text.Digits

/-!
# What hunk headers say

A header describes its hunk when it names the number of lines in front of the
hunk and the number of lines in it, on either side.  The numbers come from the
positions recorded in the first and the last segment of the hunk:

* a hunk that begins with context has the right start, and one that ends with
  context the right end, because kept segments record both positions;
* a change without context may record an outdated position on the side that
  it does not touch, and only the first hunk can begin and only the last one
  can end with such a change.

The main result is therefore a condition on two headers: all headers describe
their hunks exactly when the first one starts behind equally many old and new
lines and the last one leaves equally many of them.
-/

namespace ReviewDiff.LineDiff

/-! ## Texts of headers -/

/-- The text of a range of `count` lines with `before` lines in front of it:
the number of its first line, or of the line before an empty range, and the
count unless it is one. -/
def rangeText (before count : Nat) : String :=
  let first := if count = 0 then before else before + 1
  if count = 1 then toString first
  else toString first ++ "," ++ toString count

/-- The header of a hunk with so many old and new lines in front of it and
so many in it. -/
def headerText (oldBefore oldCount newBefore newCount : Nat) : String :=
  "@@ -" ++ rangeText oldBefore oldCount ++ " +" ++
    rangeText newBefore newCount ++ " @@"

theorem rangeText_one (before : Nat) :
    rangeText before 1 = toString (before + 1) :=
  rfl

theorem rangeText_of_ne_one
    (before : Nat) {count : Nat} (many : count ≠ 1) :
    rangeText before count =
      toString (if count = 0 then before else before + 1) ++ "," ++
        toString count := by
  simp only [rangeText, if_neg many]

theorem render_eq_rangeText (range : LineRange) :
    range.render = rangeText range.start range.length := by
  unfold LineRange.render
  by_cases one : range.length = 1
  · rw [if_pos one, one, rangeText_one]
  · rw [if_neg one, rangeText_of_ne_one _ one]
    by_cases none : range.length = 0
    · simp only [none, if_true, String.append_assoc]
      rfl
    · simp only [none, if_false]
      rfl

theorem header_eq_headerText (hunk : Hunk) :
    hunk.header =
      headerText hunk.oldRange.start hunk.oldRange.length
        hunk.newRange.start hunk.newRange.length := by
  rw [Hunk.header, headerText, render_eq_rangeText, render_eq_rangeText]

theorem notMem_rangeText
    {c : Char} (notDigit : c.isDigit = false) (notComma : c ≠ ',')
    (before count : Nat) :
    c ∉ (rangeText before count).toList := by
  have digits := Text.notMem_toString_of_not_isDigit notDigit
  by_cases one : count = 1
  · rw [one, rangeText_one]
    exact digits _
  · rw [rangeText_of_ne_one before one]
    simp only [String.toList_append, List.mem_append, not_or]
    exact ⟨⟨digits _, fun member => notComma (List.mem_singleton.mp member)⟩,
      digits _⟩

private theorem comma_mem_rangeText
    (before : Nat) {count : Nat} (many : count ≠ 1) :
    ',' ∈ (rangeText before count).toList := by
  rw [rangeText_of_ne_one before many]
  simp

theorem rangeText_inj
    {before count before' count' : Nat}
    (same : rangeText before count = rangeText before' count') :
    before = before' ∧ count = count' := by
  have noComma := Text.notMem_toString_of_not_isDigit (c := ',') (by decide)
  by_cases one : count = 1
  · by_cases one' : count' = 1
    · rw [one, one', rangeText_one, rangeText_one] at same
      have first := Text.toString_injective same
      omega
    · have comma := comma_mem_rangeText before' one'
      rw [← same, one, rangeText_one] at comma
      exact absurd comma (noComma _)
  · by_cases one' : count' = 1
    · have comma := comma_mem_rangeText before one
      rw [same, one', rangeText_one] at comma
      exact absurd comma (noComma _)
    · rw [rangeText_of_ne_one _ one, rangeText_of_ne_one _ one'] at same
      have lists := congrArg String.toList same
      simp only [String.toList_append, List.append_assoc] at lists
      obtain ⟨firsts, counts⟩ :=
        Text.append_separator_inj (noComma _) (noComma _) lists
      have sameCount : count = count' :=
        Text.toString_injective (String.toList_inj.mp counts)
      have sameFirst := Text.toString_injective (String.toList_inj.mp firsts)
      subst sameCount
      refine ⟨?_, rfl⟩
      split at sameFirst <;> omega

theorem headerText_inj
    {o l n m o' l' n' m' : Nat}
    (same : headerText o l n m = headerText o' l' n' m') :
    (o = o' ∧ l = l') ∧ n = n' ∧ m = m' := by
  have lists := congrArg String.toList same
  simp only [headerText, String.toList_append, List.append_assoc] at lists
  have afterSign := List.append_cancel_left lists
  have noSpace := notMem_rangeText (c := ' ') (by decide) (by decide)
  obtain ⟨oldTexts, rest⟩ :=
    Text.append_separator_inj (noSpace _ _) (noSpace _ _) afterSign
  obtain ⟨newTexts, _⟩ :=
    Text.append_separator_inj (noSpace _ _) (noSpace _ _) (List.cons.inj rest).2
  exact ⟨rangeText_inj (String.toList_inj.mp oldTexts),
    rangeText_inj (String.toList_inj.mp newTexts)⟩

/-! ## Recorded edges -/

/-- The cluster begins with kept lines. -/
def StartsKept (cluster : List Segment) : Prop :=
  ∀ segment, cluster.head? = some segment → segment.kept = true

/-- The cluster ends with kept lines. -/
def EndsKept (cluster : List Segment) : Prop :=
  ∀ segment, cluster.getLast? = some segment → segment.kept = true

/-- Every cluster but the first begins with the last lines of a kept
segment. -/
theorem startsKept_tail
    (context : Nat) {parts : List Segment}
    (alternates : parts.IsChain Segment.Alternates) :
    ∀ cluster ∈ (clusters context parts).tail, StartsKept cluster := by
  by_cases changes : ∃ segment ∈ parts, segment.kept = false
  · obtain ⟨first, others, shape, _, heads⟩ :=
      (cut_clusters context alternates changes).heads
    rw [shape]
    intro cluster member segment found
    obtain ⟨long, isLong, head⟩ := heads cluster member
    rw [head] at found
    obtain rfl := Option.some.inj found
    exact isLong.1
  · rw [clusters_of_unchanged context alternates changes]
    exact fun _ member => absurd member List.not_mem_nil

/-- Every cluster but the last ends with the first lines of a kept segment. -/
theorem endsKept_dropLast
    (context : Nat) {parts : List Segment}
    (alternates : parts.IsChain Segment.Alternates) :
    ∀ cluster ∈ (clusters context parts).dropLast, EndsKept cluster := by
  by_cases changes : ∃ segment ∈ parts, segment.kept = false
  · obtain ⟨others, last, shape, _, ends⟩ :=
      (cut_clusters context alternates changes).lasts
    rw [shape, List.dropLast_concat]
    intro cluster member segment found
    obtain ⟨long, isLong, finish⟩ := ends cluster member
    rw [finish] at found
    obtain rfl := Option.some.inj found
    exact isLong.1
  · rw [clusters_of_unchanged context alternates changes]
    exact fun _ member => absurd member List.not_mem_nil

section Recorded

variable {old new : List Line} {start finish : Point}
  {cluster : List Segment} {hunk : Hunk}

/-- A segment records both positions if it is kept, and one of them anyway. -/
theorem recorded_segment
    {segment : Segment} (stands : segment.StandsAt old new start) :
    (segment.kept = true → segment.old = start.1 ∧ segment.new = start.2) ∧
      (segment.old = start.1 ∨ segment.new = start.2) := by
  cases kept : segment.kept with
  | true =>
      obtain ⟨oldStart, newStart, _⟩ := (standsAt_kept kept).mp stands
      exact ⟨fun _ => ⟨oldStart, newStart⟩, Or.inl oldStart⟩
  | false =>
      obtain ⟨positive, oldSide, newSide⟩ := (standsAt_changed kept).mp stands
      refine ⟨fun absurdly => Bool.noConfusion absurdly, ?_⟩
      by_cases empty : segment.oldLength = 0
      · exact Or.inr (newSide (by omega)).1
      · exact Or.inl (oldSide (Nat.pos_of_ne_zero empty)).1

theorem recorded_start
    (covers : Covers old new start cluster finish)
    (found : Hunk.ofCluster old new cluster = some hunk) :
    (StartsKept cluster →
        hunk.oldRange.start = start.1 ∧ hunk.newRange.start = start.2) ∧
      (hunk.oldRange.start = start.1 ∨ hunk.newRange.start = start.2) := by
  cases cluster with
  | nil => exact absurd found (by simp [Hunk.ofCluster])
  | cons segment rest =>
      obtain ⟨whenKept, either⟩ := recorded_segment covers.1
      have last := List.getLast?_eq_some_getLast (List.cons_ne_nil segment rest)
      simp only [Hunk.ofCluster, List.head?_cons, last] at found
      obtain rfl := Option.some.inj found
      exact ⟨fun kept => whenKept (kept segment rfl), either⟩

theorem recorded_stop
    (covers : Covers old new start cluster finish)
    (found : Hunk.ofCluster old new cluster = some hunk) :
    (EndsKept cluster →
        hunk.oldRange.stop = finish.1 ∧ hunk.newRange.stop = finish.2) ∧
      (hunk.oldRange.stop = finish.1 ∨ hunk.newRange.stop = finish.2) := by
  rcases List.eq_nil_or_concat cluster with rfl | ⟨front, segment, rfl⟩
  · exact absurd found (by simp [Hunk.ofCluster])
  · rw [List.concat_eq_append] at covers found ⊢
    obtain ⟨middle, _, last⟩ := chains_append.mp covers
    obtain ⟨stands, rfl⟩ := chains_singleton.mp last
    obtain ⟨whenKept, either⟩ := recorded_segment stands
    have first := List.head?_eq_some_head
      (List.append_ne_nil_of_right_ne_nil front (List.cons_ne_nil segment []))
    simp only [Hunk.ofCluster, first, List.getLast?_concat] at found
    obtain rfl := Option.some.inj found
    simp only [Segment.past]
    refine ⟨?_, ?_⟩
    · intro kept
      have both := whenKept (kept segment List.getLast?_concat)
      rw [both.1, both.2]
      exact ⟨rfl, rfl⟩
    · rcases either with oldStart | newStart
      · exact Or.inl (by rw [oldStart])
      · exact Or.inr (by rw [newStart])

end Recorded

/-! ## Descriptions -/

/-- Every header names the numbers of lines in front of its hunk and in it. -/
def Layout.HeadersDescribe
    {old new : List Line} {hunks : List Hunk} (layout : Layout old new hunks) :
    Prop :=
  ∀ before gap (hunk : Hunk) after, layout.blocks = before ++ (gap, hunk) :: after →
    hunk.header =
      headerText (weave Hunk.oldLines gap before).length hunk.oldLines.length
        (weave Hunk.newLines gap before).length hunk.newLines.length

/-- A hunk ends where another one begins, or earlier, on either side. -/
def Hunk.Precedes (first second : Hunk) : Prop :=
  first.oldRange.start + first.oldRange.length ≤ second.oldRange.start ∧
    first.newRange.start + first.newRange.length ≤ second.newRange.start

/-- The first header starts behind equally many lines of both sides, and the
last one leaves equally many lines of both sides. -/
def EdgesAgree (oldCount newCount : Nat) (hunks : List Hunk) : Prop :=
  (∀ hunk, hunks.head? = some hunk →
    hunk.oldRange.start = hunk.newRange.start) ∧
  (∀ hunk, hunks.getLast? = some hunk →
    oldCount + (hunk.newRange.start + hunk.newRange.length) =
      newCount + (hunk.oldRange.start + hunk.oldRange.length))

section Descriptions

variable {old new : List Line}

theorem places_length
    {point : Point} {blocks : List (List Line × Hunk)}
    {groups : List (List Segment)} (places : Places old new point blocks groups) :
    groups.length = blocks.length := by
  induction blocks generalizing point groups with
  | nil =>
      cases groups with
      | nil => rfl
      | cons cluster back => exact False.elim places
  | cons block rest inductionHypothesis =>
      cases groups with
      | nil => exact False.elim places
      | cons cluster back =>
          obtain ⟨_, _, onward⟩ := places
          rw [List.length_cons, List.length_cons, inductionHypothesis onward]

/-- The cluster of a block, and where it lies. -/
theorem places_split
    {point : Point} {before after : List (List Line × Hunk)}
    {gap : List Line} {hunk : Hunk} {groups : List (List Segment)}
    (places : Places old new point (before ++ (gap, hunk) :: after) groups) :
    ∃ front cluster back, groups = front ++ cluster :: back ∧
      front.length = before.length ∧ back.length = after.length ∧
      Hunk.ofCluster old new cluster = some hunk ∧
      ∃ start finish : Point,
        start = (point.1 + (weave Hunk.oldLines gap before).length,
          point.2 + (weave Hunk.newLines gap before).length) ∧
        finish = (start.1 + hunk.oldLines.length,
          start.2 + hunk.newLines.length) ∧
        Covers old new start cluster finish := by
  induction before generalizing point groups with
  | nil =>
      cases groups with
      | nil => exact False.elim places
      | cons cluster back =>
          obtain ⟨found, covers, onward⟩ := places
          exact ⟨[], cluster, back, rfl, rfl, places_length onward, found,
            _, _, rfl, rfl, covers⟩
  | cons block rest inductionHypothesis =>
      obtain ⟨gap', hunk'⟩ := block
      cases groups with
      | nil => exact False.elim places
      | cons first others =>
          obtain ⟨_, _, onward⟩ := places
          obtain ⟨front, cluster, back, rfl, frontLength, backLength, found,
            start, finish, rfl, rfl, covers⟩ := inductionHypothesis onward
          refine ⟨first :: front, cluster, back, rfl, ?_, backLength, found,
            _, _, ?_, rfl, covers⟩
          · rw [List.length_cons, List.length_cons, frontLength]
          · simp only [weave, List.length_append, Nat.add_assoc]

/-- Headers that describe their hunks agree at the edges. -/
theorem edgesAgree_of_headersDescribe
    {hunks : List Hunk} (layout : Layout old new hunks)
    (describe : layout.HeadersDescribe) :
    EdgesAgree old.length new.length hunks := by
  obtain ⟨blocks, tail, rfl, oldSide, newSide⟩ := layout
  constructor
  · intro hunk first
    cases blocks with
    | nil => exact absurd first (by simp)
    | cons block rest =>
        obtain ⟨gap, hunk'⟩ := block
        obtain rfl : hunk' = hunk := by simpa using first
        have text := describe [] gap hunk' rest rfl
        rw [header_eq_headerText] at text
        obtain ⟨⟨oldStart, _⟩, newStart, _⟩ := headerText_inj text
        rw [oldStart, newStart]
        rfl
  · intro hunk last
    rcases List.eq_nil_or_concat blocks with rfl | ⟨front, ⟨gap, hunk'⟩, rfl⟩
    · exact absurd last (by simp)
    · rw [List.concat_eq_append] at last oldSide newSide
      obtain rfl : hunk' = hunk := by simpa using last
      have text := describe front gap hunk' [] (List.concat_eq_append ..)
      rw [header_eq_headerText] at text
      obtain ⟨⟨oldStart, oldLength⟩, newStart, newLength⟩ := headerText_inj text
      rw [weave_append] at oldSide newSide
      have oldCount := congrArg List.length oldSide
      have newCount := congrArg List.length newSide
      simp only [List.length_append, weave] at oldCount newCount
      omega

/-- Every recorded range is where its hunk lies. -/
def Layout.RangesFit
    {hunks : List Hunk} (layout : Layout old new hunks) : Prop :=
  ∀ before gap (hunk : Hunk) after, layout.blocks = before ++ (gap, hunk) :: after →
    hunk.oldRange.start = (weave Hunk.oldLines gap before).length ∧
      hunk.oldRange.length = hunk.oldLines.length ∧
      hunk.newRange.start = (weave Hunk.newLines gap before).length ∧
      hunk.newRange.length = hunk.newLines.length

theorem Layout.RangesFit.headersDescribe
    {hunks : List Hunk} {layout : Layout old new hunks}
    (fit : layout.RangesFit) :
    layout.HeadersDescribe := by
  intro before gap hunk after position
  obtain ⟨oldStart, oldLength, newStart, newLength⟩ :=
    fit before gap hunk after position
  rw [header_eq_headerText, oldStart, oldLength, newStart, newLength]

/-- The start is right behind context, and at the first hunk if the two
positions agree there. -/
theorem start_fits
    {hunks : List Hunk} (layout : Layout old new hunks)
    {groups : List (List Segment)}
    (places : Places old new (0, 0) layout.blocks groups)
    (starts : ∀ cluster ∈ groups.tail, StartsKept cluster)
    (agree : EdgesAgree old.length new.length hunks)
    {before after : List (List Line × Hunk)} {gap : List Line} {hunk : Hunk}
    (position : layout.blocks = before ++ (gap, hunk) :: after) :
    hunk.oldRange.start = (weave Hunk.oldLines gap before).length ∧
      hunk.newRange.start = (weave Hunk.newLines gap before).length := by
  rw [position] at places
  obtain ⟨front, cluster, back, shape, frontLength, _, found,
    start, finish, startPoint, _, covers⟩ := places_split places
  obtain ⟨whenKept, either⟩ := recorded_start covers found
  rw [startPoint] at whenKept either
  simp only [Nat.zero_add] at whenKept either
  cases before with
  | cons block rest =>
      apply whenKept
      apply starts cluster
      cases front with
      | nil => exact absurd frontLength (by simp)
      | cons first others =>
          rw [shape]
          exact List.mem_append_right others List.mem_cons_self
  | nil =>
      have first : hunks.head? = some hunk := by
        rw [← layout.hunks_eq, position]
        rfl
      have same := agree.1 hunk first
      simp only [weave] at either ⊢
      omega

/-- The end is right before context, and at the last hunk if as many old as
new lines are left there. -/
theorem length_fits
    {hunks : List Hunk} (layout : Layout old new hunks)
    {groups : List (List Segment)}
    (places : Places old new (0, 0) layout.blocks groups)
    (stops : ∀ cluster ∈ groups.dropLast, EndsKept cluster)
    (agree : EdgesAgree old.length new.length hunks)
    {before after : List (List Line × Hunk)} {gap : List Line} {hunk : Hunk}
    (position : layout.blocks = before ++ (gap, hunk) :: after)
    (oldStart :
      hunk.oldRange.start = (weave Hunk.oldLines gap before).length)
    (newStart :
      hunk.newRange.start = (weave Hunk.newLines gap before).length) :
    hunk.oldRange.length = hunk.oldLines.length ∧
      hunk.newRange.length = hunk.newLines.length := by
  have oldSide := congrArg List.length layout.old_eq
  have newSide := congrArg List.length layout.new_eq
  rw [position, weave_append] at oldSide newSide
  rw [position] at places
  obtain ⟨front, cluster, back, shape, _, backLength, found,
    start, finish, startPoint, finishPoint, covers⟩ := places_split places
  obtain ⟨whenKept, either⟩ := recorded_stop covers found
  rw [finishPoint, startPoint] at whenKept either
  simp only [Nat.zero_add] at whenKept either
  cases after with
  | cons block rest =>
      have kept : EndsKept cluster := by
        apply stops cluster
        cases back with
        | nil => exact absurd backLength (by simp)
        | cons next others =>
            rw [shape, List.dropLast_append_cons, List.dropLast_cons_of_ne_nil
              (List.cons_ne_nil next others)]
            exact List.mem_append_right front List.mem_cons_self
      obtain ⟨oldStop, newStop⟩ := whenKept kept
      simp only [LineRange.length, oldStop, newStop, oldStart, newStart]
      omega
  | nil =>
      have last : hunks.getLast? = some hunk := by
        rw [← layout.hunks_eq, position]
        simp
      have same := agree.2 hunk last
      simp only [List.length_append, weave] at oldSide newSide
      simp only [LineRange.length] at same ⊢
      omega

theorem exists_rangesFit
    (agree : EdgesAgree old.length new.length (hunksOfLines old new)) :
    ∃ layout : Layout old new (hunksOfLines old new), layout.RangesFit := by
  obtain ⟨layout, places⟩ := exists_layout old new
  have alternates := isChain_segments (settle old new (script old new))
  refine ⟨layout, ?_⟩
  intro before gap hunk after position
  obtain ⟨oldStart, newStart⟩ :=
    start_fits layout places (startsKept_tail contextLines alternates) agree position
  obtain ⟨oldLength, newLength⟩ :=
    length_fits layout places (endsKept_dropLast contextLines alternates) agree
      position oldStart newStart
  exact ⟨oldStart, oldLength, newStart, newLength⟩

private theorem pairwise_precedes
    (blocks : List (List Line × Hunk)) (oldOffset newOffset : Nat)
    (fit : ∀ before gap (hunk : Hunk) after, blocks = before ++ (gap, hunk) :: after →
      hunk.oldRange.start =
          oldOffset + (weave Hunk.oldLines gap before).length ∧
        hunk.oldRange.length = hunk.oldLines.length ∧
        hunk.newRange.start =
          newOffset + (weave Hunk.newLines gap before).length ∧
        hunk.newRange.length = hunk.newLines.length) :
    (blocks.map Prod.snd).Pairwise Hunk.Precedes := by
  induction blocks generalizing oldOffset newOffset with
  | nil => exact List.Pairwise.nil
  | cons block rest inductionHypothesis =>
      obtain ⟨gap, hunk⟩ := block
      rw [List.map_cons, List.pairwise_cons]
      constructor
      · intro later member
        obtain ⟨⟨gap', later⟩, inRest, rfl⟩ := List.mem_map.mp member
        obtain ⟨between, after, split⟩ := List.mem_iff_append.mp inRest
        have here := fit [] gap hunk rest rfl
        have there := fit ((gap, hunk) :: between) gap' later after
          (by rw [split, List.cons_append])
        simp only [weave, List.length_append] at here there
        change hunk.Precedes later
        unfold Hunk.Precedes
        omega
      · apply inductionHypothesis
          (oldOffset + gap.length + hunk.oldLines.length)
          (newOffset + gap.length + hunk.newLines.length)
        intro before gap' hunk' after split
        have there := fit ((gap, hunk) :: before) gap' hunk' after
          (by rw [split, List.cons_append])
        simpa only [weave, List.length_append, Nat.add_assoc] using there

/-- Ranges that fit a layout are in order. -/
theorem Layout.RangesFit.pairwise
    {hunks : List Hunk} {layout : Layout old new hunks}
    (fit : layout.RangesFit) :
    hunks.Pairwise Hunk.Precedes := by
  obtain ⟨blocks, tail, rfl, _, _⟩ := layout
  apply pairwise_precedes blocks 0 0
  intro before gap hunk after split
  simpa only [Nat.zero_add] using fit before gap hunk after split

end Descriptions

/-- All headers describe their hunks, and their ranges are in order, exactly
when the headers agree at both edges of the diff. -/
theorem headers_describe_iff_edges_agree
    (old new : Bytes) :
    ((∃ layout : Layout (splitLines old) (splitLines new) (hunks old new),
        layout.HeadersDescribe) ∧
      (hunks old new).Pairwise Hunk.Precedes) ↔
      EdgesAgree (splitLines old).length (splitLines new).length
        (hunks old new) := by
  constructor
  · rintro ⟨⟨layout, describe⟩, _⟩
    exact edgesAgree_of_headersDescribe layout describe
  · intro agree
    obtain ⟨layout, fit⟩ := exists_rangesFit agree
    exact ⟨⟨layout, fit.headersDescribe⟩, fit.pairwise⟩

/-- The deletion at the start of this diff was passed by an insertion and
still records the position behind it: the header says `@@ -1 +2 @@` for a
hunk with two old and two new lines. -/
theorem headers_of_passed_deletion :
    let old := Utf8.encode "b\na\n"
    let new := Utf8.encode "a\na\n"
    ¬((∃ layout : Layout (splitLines old) (splitLines new) (hunks old new),
        layout.HeadersDescribe) ∧
      (hunks old new).Pairwise Hunk.Precedes) := by
  rintro old new ⟨⟨layout, describe⟩, _⟩
  have agree := (edgesAgree_of_headersDescribe layout describe).1
  have found :
      (hunks old new).head? =
        some ⟨⟨0, 1⟩, ⟨1, 2⟩,
          [⟨.removed, [98, 10]⟩, ⟨.context, [97, 10]⟩, ⟨.added, [97, 10]⟩]⟩ := by
    cbv
  exact absurd (agree _ found) (by decide)

end ReviewDiff.LineDiff

import ReviewDiff.Proofs.LineDiff.Headers
import ReviewDiff.Proofs.Text.Utf8

/-!
# Lines of a written diff

A patch program cuts a diff at line feeds, while a line of content may also
end in a lone carriage return.  Such a line gets no line feed and swallows
the first piece of what is written behind it.  In any case the pieces of a
hunk begin like lines of a patch.
-/

namespace ReviewDiff.LineDiff

/-! ## Lines of content -/

/-- A line is nonempty, and a line feed can only end it. -/
def IsLine (line : Line) : Prop :=
  line ≠ [] ∧ lineFeed ∉ line.dropLast

theorem isLine_of_mem_splitLines
    {content : Bytes} {line : Line} (member : line ∈ splitLines content) :
    IsLine line := by
  induction content generalizing line with
  | nil => exact absurd member List.not_mem_nil
  | cons byte rest inductionHypothesis =>
      rw [splitLines] at member
      by_cases ends : endsLine byte rest = true
      · rw [if_pos ends, List.mem_cons] at member
        rcases member with rfl | later
        · exact ⟨List.cons_ne_nil byte [], List.not_mem_nil⟩
        · exact inductionHypothesis later
      · rw [if_neg ends] at member
        have noFeed : lineFeed ≠ byte := by
          rintro rfl
          exact ends rfl
        cases shape : splitLines rest with
        | nil =>
            rw [shape, extendFirst, List.mem_singleton] at member
            subst member
            exact ⟨List.cons_ne_nil byte [], List.not_mem_nil⟩
        | cons first others =>
            rw [shape] at inductionHypothesis
            rw [shape, extendFirst, List.mem_cons] at member
            rcases member with rfl | later
            · obtain ⟨nonempty, absent⟩ := inductionHypothesis List.mem_cons_self
              refine ⟨List.cons_ne_nil byte first, ?_⟩
              rw [List.dropLast_cons_of_ne_nil nonempty, List.mem_cons, not_or]
              exact ⟨noFeed, absent⟩
            · exact inductionHypothesis (List.mem_cons_of_mem first later)

theorem IsLine.eq_append
    {line : Line} (isLine : IsLine line) (ends : line.getLast? = some lineFeed) :
    line = line.dropLast ++ [lineFeed] := by
  rw [List.getLast?_eq_some_getLast isLine.1, Option.some.injEq] at ends
  rw [← ends, List.dropLast_concat_getLast]

theorem IsLine.lineFeed_notMem
    {line : Line} (isLine : IsLine line) (unended : line.getLast? ≠ some lineFeed) :
    lineFeed ∉ line := by
  intro member
  obtain ⟨nonempty, absent⟩ := isLine
  rw [← List.dropLast_concat_getLast nonempty, List.mem_append,
    List.mem_singleton] at member
  rcases member with inside | last
  · exact absent inside
  · exact unended (by rw [List.getLast?_eq_some_getLast nonempty, last])

theorem mem_weave
    {side : Hunk → List Line} {tail : List Line}
    {blocks : List (List Line × Hunk)} {block : List Line × Hunk}
    (inBlocks : block ∈ blocks) {line : Line} (inSide : line ∈ side block.2) :
    line ∈ weave side tail blocks := by
  obtain ⟨before, after, rfl⟩ := List.mem_iff_append.mp inBlocks
  obtain ⟨gap, hunk⟩ := block
  rw [weave_append]
  exact List.mem_append_left _ (List.mem_append_right _ inSide)

/-- Every shown line is a line of one of the contents. -/
theorem isLine_of_mem_hunk
    {old new : Bytes} {hunk : Hunk} (inHunks : hunk ∈ hunks old new)
    {tagged : TaggedLine} (inHunk : tagged ∈ hunk.lines) :
    IsLine tagged.line := by
  obtain ⟨layout, _⟩ := exists_layout (splitLines old) (splitLines new)
  have found : hunk ∈ layout.blocks.map Prod.snd := by
    rw [layout.hunks_eq]
    exact inHunks
  obtain ⟨block, inBlocks, rfl⟩ := List.mem_map.mp found
  by_cases added : tagged.tag = .added
  · have shown : tagged.line ∈ block.2.newLines := by
      refine List.mem_map.mpr ⟨tagged, List.mem_filter.mpr ⟨inHunk, ?_⟩, rfl⟩
      rw [added]
      rfl
    have inNew : tagged.line ∈ weave Hunk.newLines layout.tail layout.blocks :=
      mem_weave inBlocks shown
    rw [← layout.new_eq] at inNew
    exact isLine_of_mem_splitLines inNew
  · have shown : tagged.line ∈ block.2.oldLines := by
      refine List.mem_map.mpr ⟨tagged, List.mem_filter.mpr ⟨inHunk, ?_⟩, rfl⟩
      exact decide_eq_true added
    have inOld : tagged.line ∈ weave Hunk.oldLines layout.tail layout.blocks :=
      mem_weave inBlocks shown
    rw [← layout.old_eq] at inOld
    exact isLine_of_mem_splitLines inOld

/-! ## Cutting at line feeds -/

/-- The pieces of a text between line feeds; a line feed at the end starts no
further piece. -/
def cutLines : Bytes → List Bytes
  | [] => []
  | byte :: rest =>
      if byte = lineFeed then [] :: cutLines rest
      else extendFirst byte (cutLines rest)

theorem cutLines_lineFeed
    {front : Bytes} (absent : lineFeed ∉ front) (back : Bytes) :
    cutLines (front ++ lineFeed :: back) = front :: cutLines back := by
  induction front with
  | nil => exact if_pos rfl
  | cons byte rest inductionHypothesis =>
      rw [List.mem_cons, not_or] at absent
      rw [List.cons_append, cutLines, if_neg (Ne.symm absent.1),
        inductionHypothesis absent.2, extendFirst]

/-- Without a line feed between them, a text and the first piece of what
follows are one piece. -/
theorem cutLines_glued
    {front : Bytes} (nonempty : front ≠ []) (absent : lineFeed ∉ front)
    (back : Bytes) :
    cutLines (front ++ back) =
      (front ++ (cutLines back).headD []) :: (cutLines back).tail := by
  induction front with
  | nil => exact absurd rfl nonempty
  | cons byte rest inductionHypothesis =>
      rw [List.mem_cons, not_or] at absent
      rw [List.cons_append, cutLines, if_neg (Ne.symm absent.1)]
      by_cases more : rest = []
      · subst more
        rw [List.nil_append]
        cases cutLines back <;> rfl
      · rw [inductionHypothesis more absent.2]
        rfl

theorem headD_cutLines_ne_nil
    {byte : UInt8} (other : byte ≠ lineFeed) (rest : Bytes) :
    (cutLines (byte :: rest)).headD [] ≠ [] := by
  rw [cutLines, if_neg other]
  cases cutLines rest <;> exact List.cons_ne_nil _ _

/-! ## Lines of a patch -/

/-- A line of the body of a patch. -/
inductive PatchLine where
  | opening (header : Bytes)
  | tagged (line : TaggedLine)
  deriving DecidableEq

/-- A hunk as a patch shows it. -/
structure PatchHunk where
  header : Bytes
  lines : List TaggedLine
  deriving DecidableEq

def PatchHunk.patchLines (hunk : PatchHunk) : List PatchLine :=
  .opening hunk.header :: hunk.lines.map .tagged

/-- A hunk as it is meant to be read. -/
def Hunk.shown (hunk : Hunk) : PatchHunk :=
  ⟨Utf8.encode hunk.header, hunk.lines⟩

/-- The lines that are written for hunks. -/
def patchLinesOf (hunks : List Hunk) : List PatchLine :=
  (hunks.map Hunk.shown).flatMap PatchHunk.patchLines

/-- What a piece of a body begins with: `@@`, a blank, a minus, a plus or a
backslash. -/
def BeginsPatchLine (piece : Bytes) : Prop :=
  [64, 64] <+: piece ∨ ∃ sign, sign ∈ [32, 45, 43, 92] ∧ [sign] <+: piece

/-! ## Written lines -/

def PatchLine.render : PatchLine → Bytes
  | .opening header => header ++ [lineFeed]
  | .tagged line => line.render

/-- A header that begins like one and is one line, or a line of content. -/
def PatchLine.WellFormed : PatchLine → Prop
  | .opening header => [64, 64] <+: header ∧ lineFeed ∉ header
  | .tagged line => IsLine line.line

/-- Whether a line feed follows a line where it is written. -/
def PatchLine.Closed : PatchLine → Prop
  | .opening _ => True
  | .tagged line => line.line.getLast? ≠ some carriageReturn

instance : (line : PatchLine) → Decidable line.Closed
  | .opening _ => inferInstanceAs (Decidable True)
  | .tagged line =>
      inferInstanceAs (Decidable (line.line.getLast? ≠ some carriageReturn))

def writeLines (lines : List PatchLine) : Bytes :=
  lines.flatMap PatchLine.render

theorem lineFeed_ne_sign (tag : Tag) : lineFeed ≠ tag.sign := by
  cases tag <;> decide

theorem lineFeed_notMem_missingEndingNote :
    lineFeed ∉ Utf8.encode missingEndingNote := by
  decide

section Tagged

variable {tagged : TaggedLine}

theorem render_of_lineFeed
    (isLine : IsLine tagged.line) (ends : tagged.line.getLast? = some lineFeed) :
    tagged.render = (tagged.tag.sign :: tagged.line.dropLast) ++ [lineFeed] := by
  have terminated : isTerminated tagged.line = true := by
    simp [isTerminated, ends]
  rw [TaggedLine.render, if_pos terminated, List.append_nil, List.cons_append,
    ← isLine.eq_append ends]

theorem render_of_carriageReturn
    (ends : tagged.line.getLast? = some carriageReturn) :
    tagged.render = tagged.tag.sign :: tagged.line := by
  have terminated : isTerminated tagged.line = true := by
    simp [isTerminated, ends]
  rw [TaggedLine.render, if_pos terminated, List.append_nil]

theorem render_of_unended
    (noFeed : tagged.line.getLast? ≠ some lineFeed)
    (noReturn : tagged.line.getLast? ≠ some carriageReturn) :
    tagged.render =
      (tagged.tag.sign :: tagged.line) ++
        lineFeed :: (Utf8.encode missingEndingNote ++ [lineFeed]) := by
  have terminated : ¬isTerminated tagged.line = true := by
    simp [isTerminated, noFeed, noReturn]
  rw [TaggedLine.render, if_neg terminated]
  rfl

theorem cutLines_of_lineFeed
    (isLine : IsLine tagged.line) (ends : tagged.line.getLast? = some lineFeed)
    (back : Bytes) :
    cutLines (tagged.render ++ back) =
      (tagged.tag.sign :: tagged.line.dropLast) :: cutLines back := by
  have absent : lineFeed ∉ tagged.tag.sign :: tagged.line.dropLast := by
    rw [List.mem_cons, not_or]
    exact ⟨lineFeed_ne_sign tagged.tag, isLine.2⟩
  rw [render_of_lineFeed isLine ends, List.append_assoc]
  exact cutLines_lineFeed absent back

theorem cutLines_of_carriageReturn
    (isLine : IsLine tagged.line)
    (ends : tagged.line.getLast? = some carriageReturn) (back : Bytes) :
    cutLines (tagged.render ++ back) =
      (tagged.tag.sign :: (tagged.line ++ (cutLines back).headD [])) ::
        (cutLines back).tail := by
  have noFeed : lineFeed ∉ tagged.line := by
    apply isLine.lineFeed_notMem
    rw [ends]
    decide
  have absent : lineFeed ∉ tagged.tag.sign :: tagged.line := by
    rw [List.mem_cons, not_or]
    exact ⟨lineFeed_ne_sign tagged.tag, noFeed⟩
  rw [render_of_carriageReturn ends]
  exact cutLines_glued (List.cons_ne_nil _ _) absent back

theorem cutLines_of_unended
    (isLine : IsLine tagged.line)
    (noFeed : tagged.line.getLast? ≠ some lineFeed)
    (noReturn : tagged.line.getLast? ≠ some carriageReturn) (back : Bytes) :
    cutLines (tagged.render ++ back) =
      (tagged.tag.sign :: tagged.line) ::
        Utf8.encode missingEndingNote :: cutLines back := by
  have absent : lineFeed ∉ tagged.tag.sign :: tagged.line := by
    rw [List.mem_cons, not_or]
    exact ⟨lineFeed_ne_sign tagged.tag, isLine.lineFeed_notMem noFeed⟩
  have noted :=
    cutLines_lineFeed lineFeed_notMem_missingEndingNote back
  rw [render_of_unended noFeed noReturn, List.append_assoc]
  change cutLines (_ ++ lineFeed :: ((_ ++ [lineFeed]) ++ back)) = _
  rw [cutLines_lineFeed absent, List.append_assoc, List.singleton_append, noted]

end Tagged

theorem cutLines_opening
    {header : Bytes} (absent : lineFeed ∉ header) (back : Bytes) :
    cutLines ((PatchLine.opening header).render ++ back) =
      header :: cutLines back := by
  rw [PatchLine.render, List.append_assoc]
  exact cutLines_lineFeed absent back

theorem headD_cutLines_writeLines
    {lines : List PatchLine} (wellFormed : ∀ line ∈ lines, line.WellFormed)
    (more : lines ≠ []) :
    (cutLines (writeLines lines)).headD [] ≠ [] := by
  cases lines with
  | nil => exact absurd rfl more
  | cons line rest =>
      cases line with
      | opening header =>
          obtain ⟨⟨back, rfl⟩, _⟩ := wellFormed _ List.mem_cons_self
          have other : (64 : UInt8) ≠ lineFeed := by decide
          exact headD_cutLines_ne_nil other _
      | tagged tagged =>
          exact headD_cutLines_ne_nil (Ne.symm (lineFeed_ne_sign tagged.tag)) _

/-! ## What the pieces begin with -/

theorem beginsPatchLine_sign (tag : Tag) (content : Bytes) :
    BeginsPatchLine (tag.sign :: content) := by
  refine Or.inr ⟨tag.sign, ?_, content, rfl⟩
  cases tag <;> decide

/-- Behind a closed line the pieces of what follows stay as they are; an open
one swallows the first of them. -/
theorem cutLines_render_append
    {line : PatchLine} (formed : line.WellFormed) (back : Bytes) :
    ∃ pieces,
      pieces ≠ [] ∧ (∀ piece ∈ pieces, BeginsPatchLine piece) ∧
        cutLines (line.render ++ back) =
          pieces ++ if line.Closed then cutLines back else (cutLines back).tail := by
  cases line with
  | opening header =>
      refine ⟨[header], List.cons_ne_nil _ _, ?_, ?_⟩
      · rw [List.forall_mem_singleton]
        exact Or.inl formed.1
      · have closed : (PatchLine.opening header).Closed := trivial
        rw [cutLines_opening formed.2, if_pos closed, List.singleton_append]
  | tagged tagged =>
      by_cases ends : tagged.line.getLast? = some carriageReturn
      · have notClosed : ¬(PatchLine.tagged tagged).Closed := fun closed => closed ends
        refine ⟨[tagged.tag.sign :: (tagged.line ++ (cutLines back).headD [])],
          List.cons_ne_nil _ _, ?_, ?_⟩
        · rw [List.forall_mem_singleton]
          exact beginsPatchLine_sign _ _
        · rw [PatchLine.render, cutLines_of_carriageReturn formed ends,
            if_neg notClosed, List.singleton_append]
      have closed : (PatchLine.tagged tagged).Closed := ends
      rw [if_pos closed, PatchLine.render]
      by_cases feeds : tagged.line.getLast? = some lineFeed
      · refine ⟨[tagged.tag.sign :: tagged.line.dropLast], List.cons_ne_nil _ _, ?_,
          cutLines_of_lineFeed formed feeds back⟩
        rw [List.forall_mem_singleton]
        exact beginsPatchLine_sign _ _
      · refine ⟨[tagged.tag.sign :: tagged.line, Utf8.encode missingEndingNote],
          List.cons_ne_nil _ _, ?_, cutLines_of_unended formed feeds ends back⟩
        rw [List.forall_mem_cons, List.forall_mem_singleton]
        exact ⟨beginsPatchLine_sign _ _, Or.inr ⟨92, by decide, by decide⟩⟩

theorem cutLines_writeLines_append
    {lines : List PatchLine} (formed : ∀ line ∈ lines, line.WellFormed)
    {last : PatchLine} (ends : lines.getLast? = some last) (back : Bytes) :
    ∃ pieces,
      pieces ≠ [] ∧ (∀ piece ∈ pieces, BeginsPatchLine piece) ∧
        cutLines (writeLines lines ++ back) =
          pieces ++ if last.Closed then cutLines back else (cutLines back).tail := by
  induction lines with
  | nil => cases ends
  | cons line rest inductionHypothesis =>
      rw [List.forall_mem_cons] at formed
      obtain ⟨lineFormed, restFormed⟩ := formed
      cases rest with
      | nil =>
          obtain rfl : line = last := Option.some.inj ends
          rw [writeLines, List.flatMap_singleton]
          exact cutLines_render_append lineFormed back
      | cons next others =>
          rw [List.getLast?_cons_cons] at ends
          obtain ⟨later, nonempty, laterBegin, laterCut⟩ :=
            inductionHypothesis restFormed ends
          obtain ⟨pieces, found, allBegin, cut⟩ :=
            cutLines_render_append lineFormed (writeLines (next :: others) ++ back)
          have front : writeLines (line :: next :: others) ++ back =
              line.render ++ (writeLines (next :: others) ++ back) :=
            List.append_assoc _ _ _
          rw [front, cut, laterCut]
          by_cases closed : line.Closed
          · refine ⟨pieces ++ later, List.append_ne_nil_of_left_ne_nil found _, ?_, ?_⟩
            · exact List.forall_mem_append.mpr ⟨allBegin, laterBegin⟩
            · rw [if_pos closed, List.append_assoc]
          · refine ⟨pieces ++ later.tail, List.append_ne_nil_of_left_ne_nil found _,
              ?_, ?_⟩
            · exact List.forall_mem_append.mpr
                ⟨allBegin, fun piece member => laterBegin piece (List.mem_of_mem_tail member)⟩
            · rw [if_neg closed, List.append_assoc,
                List.tail_append_of_ne_nil nonempty]

theorem beginsPatchLine_of_mem_cutLines
    {lines : List PatchLine} (formed : ∀ line ∈ lines, line.WellFormed)
    {piece : Bytes} (member : piece ∈ cutLines (writeLines lines)) :
    BeginsPatchLine piece := by
  cases ends : lines.getLast? with
  | none =>
      rw [List.getLast?_eq_none_iff.mp ends] at member
      exact absurd member List.not_mem_nil
  | some last =>
      obtain ⟨pieces, _, allBegin, cut⟩ := cutLines_writeLines_append formed ends []
      rw [List.append_nil, cutLines, List.tail_nil, ite_self, List.append_nil] at cut
      rw [cut] at member
      exact allBegin piece member

/-! ## Hunks -/

section Written

variable (old new : Bytes)

theorem writeLines_patchLines (hunks : List Hunk) :
    writeLines (patchLinesOf hunks) =
      hunks.flatMap Hunk.render := by
  induction hunks with
  | nil => rfl
  | cons hunk rest inductionHypothesis =>
      have lines :
          (hunk.lines.map PatchLine.tagged).flatMap PatchLine.render =
            hunk.lines.flatMap TaggedLine.render := by
        rw [List.flatMap_map]
        rfl
      rw [patchLinesOf, writeLines] at inductionHypothesis ⊢
      rw [List.map_cons, List.flatMap_cons, List.flatMap_append,
        inductionHypothesis, List.flatMap_cons, PatchHunk.patchLines,
        List.flatMap_cons, Hunk.shown, lines, Hunk.render, PatchLine.render]
      simp only [List.append_assoc, List.singleton_append]

theorem encode_line (text : String) :
    Utf8.encode (text ++ "\n") = Utf8.encode text ++ [lineFeed] :=
  Utf8.encode_append text "\n"

/-- A written diff is two label lines and the lines of its hunks. -/
theorem render_eq_lines (diff : UnifiedDiff) :
    diff.render =
      (Utf8.encode ("--- " ++ diff.oldLabel) ++ [lineFeed]) ++
        ((Utf8.encode ("+++ " ++ diff.newLabel) ++ [lineFeed]) ++
          writeLines (patchLinesOf diff.hunks)) := by
  have middle : "\n+++ " = "\n" ++ "+++ " := rfl
  rw [← List.append_assoc, ← encode_line, ← encode_line, ← Utf8.encode_append,
    writeLines_patchLines, UnifiedDiff.render, middle]
  simp only [String.append_assoc]

theorem lineFeed_notMem_encode
    {text : String} (single : '\n' ∉ text.toList) :
    lineFeed ∉ Utf8.encode text :=
  Utf8.notMem_encode (by decide) rfl single

theorem wellFormed_of_mem_patchLines
    {line : PatchLine}
    (member : line ∈ patchLinesOf (hunks old new)) :
    line.WellFormed := by
  obtain ⟨shown, inShown, inLines⟩ := List.mem_flatMap.mp member
  obtain ⟨hunk, inHunks, rfl⟩ := List.mem_map.mp inShown
  rcases List.mem_cons.mp inLines with rfl | inTagged
  · have noFeed := notMem_rangeText (c := '\n') (by decide) (by decide)
    have begins : [64, 64] <+: Utf8.encode hunk.header := by
      simp only [Hunk.header, Utf8.encode_append, List.append_assoc]
      exact ⟨32 :: 45 :: _, rfl⟩
    refine ⟨begins, lineFeed_notMem_encode ?_⟩
    rw [header_eq_headerText, headerText]
    simp only [String.toList_append, List.mem_append, not_or]
    exact ⟨⟨⟨⟨by decide, noFeed _ _⟩, by decide⟩, noFeed _ _⟩, by decide⟩
  · obtain ⟨tagged, inHunk, rfl⟩ := List.mem_map.mp inTagged
    exact isLine_of_mem_hunk inHunks inHunk

end Written

end ReviewDiff.LineDiff

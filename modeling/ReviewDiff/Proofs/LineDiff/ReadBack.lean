import ReviewDiff.Proofs.LineDiff.PatchLines

/-!
# Reading a written diff

A reader opens a hunk at a line that begins with `@@`, gives every tagged line
its line feed and takes it away again where a note follows.  The main result
is that a written diff reads back as its hunks exactly when no shown line ends
in a lone carriage return.
-/

namespace ReviewDiff.LineDiff

/-! ## Reading -/

/-- A patch of one file: its label lines and its hunks. -/
structure FilePatch where
  oldLabel : Bytes
  newLabel : Bytes
  hunks : List PatchHunk
  deriving DecidableEq

def Tag.ofSign? (sign : UInt8) : Option Tag :=
  [Tag.context, .removed, .added].find? (·.sign = sign)

/-- Reads one piece.  A noted line has no line feed, and only a tagged line
can be noted. -/
def PatchLine.read? (noted : Bool) : Bytes → Option PatchLine
  | 64 :: 64 :: rest => if noted then none else some (.opening (64 :: 64 :: rest))
  | sign :: content =>
      (Tag.ofSign? sign).map fun tag =>
        .tagged ⟨tag, if noted then content else content ++ [lineFeed]⟩
  | [] => none

/-- Reads the pieces of a body, and whether the line above them is noted to
have no line feed. -/
def readPatchLines? : List Bytes → Option (Bool × List PatchLine)
  | [] => some (false, [])
  | piece :: below =>
      match readPatchLines? below with
      | none => none
      | some (noted, lines) =>
          if piece = Utf8.encode missingEndingNote then
            if noted then none else some (true, lines)
          else
            match PatchLine.read? noted piece with
            | none => none
            | some line => some (false, line :: lines)

/-- The lines above the first header, and the hunks. -/
def gather : List PatchLine → List TaggedLine × List PatchHunk
  | [] => ([], [])
  | .opening header :: rest =>
      ([], ⟨header, (gather rest).1⟩ :: (gather rest).2)
  | .tagged line :: rest => (line :: (gather rest).1, (gather rest).2)

def readHunks? (pieces : List Bytes) : Option (List PatchHunk) :=
  match readPatchLines? pieces with
  | some (false, lines) =>
      if (gather lines).1 = [] then some (gather lines).2 else none
  | _ => none

/-- Reads a patch of one file as a patch program does. -/
def readFilePatch? (patch : Bytes) : Option FilePatch :=
  match cutLines patch with
  | oldLabel :: newLabel :: pieces =>
      (readHunks? pieces).map (⟨oldLabel, newLabel, ·⟩)
  | _ => none

/-! ## Lines read back -/

theorem ofSign?_sign (tag : Tag) : Tag.ofSign? tag.sign = some tag := by
  cases tag <;> decide

theorem read?_tagged (tag : Tag) (noted : Bool) (content : Bytes) :
    PatchLine.read? noted (tag.sign :: content) =
      some (.tagged ⟨tag, if noted then content else content ++ [lineFeed]⟩) := by
  have other : tag.sign ≠ 64 := by cases tag <;> decide
  unfold PatchLine.read?
  split
  · rename_i shape
    exact absurd (List.cons.inj shape).1 other
  · rename_i shape
    obtain ⟨rfl, rfl⟩ := List.cons.inj shape
    rw [ofSign?_sign, Option.map_some]
  · rename_i shape
    exact absurd shape (List.cons_ne_nil _ _)

theorem sign_cons_ne_note (tag : Tag) (content : Bytes) :
    tag.sign :: content ≠ Utf8.encode missingEndingNote := by
  have other : ∀ rest, Utf8.encode missingEndingNote ≠ tag.sign :: rest := by
    intro rest same
    have first : some 92 = some tag.sign := congrArg List.head? same
    cases tag <;> exact absurd first (by decide)
  exact Ne.symm (other content)

/-- A header is read as such when no note follows it. -/
theorem readPatchLines?_opening
    {header : Bytes} (begins : [64, 64] <+: header) (pieces : List Bytes)
    (lines : List PatchLine) :
    readPatchLines? (header :: pieces) = some (false, .opening header :: lines) ↔
      readPatchLines? pieces = some (false, lines) := by
  obtain ⟨rest, rfl⟩ := begins
  have noNote : [64, 64] ++ rest ≠ Utf8.encode missingEndingNote := by
    intro same
    have first : some 64 = (Utf8.encode missingEndingNote).head? :=
      congrArg List.head? same
    exact absurd first (by decide)
  rw [readPatchLines?]
  cases readPatchLines? pieces with
  | none => simp
  | some below =>
      obtain ⟨noted, found⟩ := below
      simp only [if_neg noNote]
      cases noted <;> simp [PatchLine.read?]

/-- A tagged piece is read together with the note below it. -/
theorem readPatchLines?_tagged
    (tag : Tag) (content : Bytes) (pieces : List Bytes) (line : PatchLine)
    (lines : List PatchLine) :
    readPatchLines? ((tag.sign :: content) :: pieces) = some (false, line :: lines) ↔
      ∃ noted, readPatchLines? pieces = some (noted, lines) ∧
        line = .tagged ⟨tag, if noted then content else content ++ [lineFeed]⟩ := by
  rw [readPatchLines?]
  cases readPatchLines? pieces with
  | none => simp
  | some below =>
      obtain ⟨noted, found⟩ := below
      simp only [if_neg (sign_cons_ne_note tag content), read?_tagged]
      constructor
      · intro same
        obtain ⟨rfl, rfl⟩ := List.cons.inj (Prod.mk.inj (Option.some.inj same)).2
        exact ⟨noted, rfl, rfl⟩
      · rintro ⟨noted', same, rfl⟩
        obtain ⟨rfl, rfl⟩ := Prod.mk.inj (Option.some.inj same)
        rfl

theorem readPatchLines?_note
    (pieces : List Bytes) (noted : Bool) (lines : List PatchLine) :
    readPatchLines? (Utf8.encode missingEndingNote :: pieces) = some (noted, lines) ↔
      noted = true ∧ readPatchLines? pieces = some (false, lines) := by
  rw [readPatchLines?]
  cases readPatchLines? pieces with
  | none => simp
  | some below =>
      obtain ⟨already, found⟩ := below
      cases already <;> cases noted <;> simp

/-- A line that ends in a carriage return is read longer than it is. -/
theorem readPatchLines?_of_carriageReturn
    {tagged : TaggedLine} (isLine : IsLine tagged.line)
    (ends : tagged.line.getLast? = some carriageReturn)
    {rest : List PatchLine} (wellFormed : ∀ line ∈ rest, line.WellFormed)
    (lines : List PatchLine) :
    readPatchLines? (cutLines (tagged.render ++ writeLines rest)) ≠
      some (false, .tagged tagged :: lines) := by
  rw [cutLines_of_carriageReturn isLine ends, Ne, readPatchLines?_tagged]
  rintro ⟨noted, below, same⟩
  have content : tagged.line = _ :=
    congrArg TaggedLine.line (PatchLine.tagged.inj same)
  have sameLength := congrArg List.length content
  cases noted with
  | false =>
      simp only [Bool.false_eq_true, if_false, List.length_append,
        List.length_singleton] at sameLength
      omega
  | true =>
      simp only [if_true, List.length_append] at sameLength
      have empty : (cutLines (writeLines rest)).headD [] = [] :=
        List.length_eq_zero_iff.mp (by omega)
      have noRest : rest = [] := by
        by_contra more
        exact headD_cutLines_writeLines wellFormed more empty
      rw [noRest] at below
      exact absurd below (by simp [writeLines, cutLines, readPatchLines?])

/-- Written lines read back exactly when a line feed follows each of them. -/
theorem readPatchLines?_iff
    {lines : List PatchLine} (wellFormed : ∀ line ∈ lines, line.WellFormed) :
    readPatchLines? (cutLines (writeLines lines)) = some (false, lines) ↔
      ∀ line ∈ lines, line.Closed := by
  induction lines with
  | nil => exact iff_of_true rfl (fun _ member => absurd member List.not_mem_nil)
  | cons line rest inductionHypothesis =>
      rw [List.forall_mem_cons] at wellFormed ⊢
      obtain ⟨lineFormed, restFormed⟩ := wellFormed
      have induction := inductionHypothesis restFormed
      have front : writeLines (line :: rest) = line.render ++ writeLines rest := rfl
      rw [front]
      cases line with
      | opening header =>
          rw [cutLines_opening lineFormed.2,
            readPatchLines?_opening lineFormed.1, induction]
          exact (and_iff_right trivial).symm
      | tagged tagged =>
          by_cases ends : tagged.line.getLast? = some carriageReturn
          · have unread :=
              readPatchLines?_of_carriageReturn lineFormed ends restFormed rest
            exact iff_of_false unread (fun closed => closed.1 ends)
          have closed : (PatchLine.tagged tagged).Closed := ends
          rw [and_iff_right closed, ← induction]
          by_cases feeds : tagged.line.getLast? = some lineFeed
          · rw [PatchLine.render, cutLines_of_lineFeed lineFormed feeds,
              readPatchLines?_tagged]
            constructor
            · rintro ⟨noted, below, same⟩
              have content : tagged.line = _ :=
                congrArg TaggedLine.line (PatchLine.tagged.inj same)
              cases noted with
              | false => exact below
              | true =>
                  have sameLength := congrArg List.length content
                  rw [if_pos rfl, IsLine.eq_append lineFormed feeds] at sameLength
                  simp at sameLength
            · intro below
              refine ⟨false, below, ?_⟩
              rw [if_neg Bool.false_ne_true, ← IsLine.eq_append lineFormed feeds]
          · rw [PatchLine.render, cutLines_of_unended lineFormed feeds ends,
              readPatchLines?_tagged]
            constructor
            · rintro ⟨noted, below, _⟩
              exact ((readPatchLines?_note _ _ _).mp below).2
            · intro below
              exact ⟨true, (readPatchLines?_note _ _ _).mpr ⟨rfl, below⟩, rfl⟩

/-! ## Hunks and whole patches -/

theorem gather_tagged
    (lines : List TaggedLine) (rest : List PatchLine) :
    gather (lines.map .tagged ++ rest) =
      (lines ++ (gather rest).1, (gather rest).2) := by
  induction lines with
  | nil => rfl
  | cons line more inductionHypothesis =>
      rw [List.map_cons, List.cons_append, gather, inductionHypothesis,
        List.cons_append]

theorem gather_patchLines (hunks : List PatchHunk) :
    gather (hunks.flatMap PatchHunk.patchLines) = ([], hunks) := by
  induction hunks with
  | nil => rfl
  | cons hunk rest inductionHypothesis =>
      rw [List.flatMap_cons, PatchHunk.patchLines, List.cons_append, gather,
        gather_tagged, inductionHypothesis, List.append_nil]

/-- Nothing is lost in gathering. -/
theorem eq_gather (lines : List PatchLine) :
    lines =
      (gather lines).1.map .tagged ++
        (gather lines).2.flatMap PatchHunk.patchLines := by
  induction lines with
  | nil => rfl
  | cons line rest inductionHypothesis =>
      cases line with
      | opening header =>
          rw [gather, List.map_nil, List.nil_append, List.flatMap_cons,
            PatchHunk.patchLines, List.cons_append, ← inductionHypothesis]
      | tagged tagged =>
          rw [gather, List.map_cons, List.cons_append, ← inductionHypothesis]

theorem readHunks?_iff (pieces : List Bytes) (hunks : List PatchHunk) :
    readHunks? pieces = some hunks ↔
      readPatchLines? pieces =
        some (false, hunks.flatMap PatchHunk.patchLines) := by
  unfold readHunks?
  constructor
  · intro found
    split at found
    · rename_i lines read
      split at found
      · rename_i noneAbove
        rw [read, ← Option.some.inj found]
        have whole := eq_gather lines
        rw [noneAbove, List.map_nil, List.nil_append] at whole
        rw [← whole]
      · cases found
    · cases found
  · intro read
    simp [read, gather_patchLines]

section Written

variable (old new : Bytes)

theorem closed_iff :
    (∀ line ∈ patchLinesOf (hunks old new), line.Closed) ↔
      ∀ hunk ∈ hunks old new, ∀ tagged ∈ hunk.lines,
        tagged.line.getLast? ≠ some carriageReturn := by
  simp only [patchLinesOf, List.forall_mem_flatMap, List.forall_mem_map,
    PatchHunk.patchLines, List.forall_mem_cons]
  constructor
  · intro closed hunk inHunks tagged inHunk
    exact (closed hunk inHunks).2 tagged inHunk
  · intro closed hunk inHunks
    exact ⟨trivial, closed hunk inHunks⟩

/-- The labels are the first two pieces of a written diff. -/
theorem cutLines_render
    {oldLabel newLabel : String}
    (oldSingle : '\n' ∉ oldLabel.toList) (newSingle : '\n' ∉ newLabel.toList) :
    cutLines (UnifiedDiff.render ⟨oldLabel, newLabel, hunks old new⟩) =
      Utf8.encode ("--- " ++ oldLabel) :: Utf8.encode ("+++ " ++ newLabel) ::
        cutLines ((hunks old new).flatMap Hunk.render) := by
  have noFeed : ∀ {front label : String}, '\n' ∉ front.toList → '\n' ∉ label.toList →
      lineFeed ∉ Utf8.encode (front ++ label) := by
    intro front label inFront inLabel
    apply lineFeed_notMem_encode
    rw [String.toList_append, List.mem_append, not_or]
    exact ⟨inFront, inLabel⟩
  rw [render_eq_lines, List.append_assoc, List.singleton_append,
    cutLines_lineFeed (noFeed (by decide) oldSingle), List.append_assoc,
    List.singleton_append, cutLines_lineFeed (noFeed (by decide) newSingle),
    writeLines_patchLines]

end Written

/-- The two label lines and the hunks that a diff is meant to be read as. -/
def filePatch (old new : Bytes) (oldLabel newLabel : String) : FilePatch where
  oldLabel := Utf8.encode ("--- " ++ oldLabel)
  newLabel := Utf8.encode ("+++ " ++ newLabel)
  hunks := (hunks old new).map Hunk.shown

theorem readFilePatch?_iff
    (old new : Bytes) {oldLabel newLabel : String}
    (oldSingle : '\n' ∉ oldLabel.toList) (newSingle : '\n' ∉ newLabel.toList) :
    readFilePatch? (UnifiedDiff.render ⟨oldLabel, newLabel, hunks old new⟩) =
        some (filePatch old new oldLabel newLabel) ↔
      ∀ hunk ∈ hunks old new, ∀ tagged ∈ hunk.lines,
        tagged.line.getLast? ≠ some carriageReturn := by
  have formed : ∀ line ∈ patchLinesOf (hunks old new), line.WellFormed :=
    fun _ => wellFormed_of_mem_patchLines old new
  have body :
      readHunks? (cutLines ((hunks old new).flatMap Hunk.render)) =
          some ((hunks old new).map Hunk.shown) ↔
        ∀ line ∈ patchLinesOf (hunks old new), line.Closed := by
    rw [readHunks?_iff, ← writeLines_patchLines, ← patchLinesOf,
      readPatchLines?_iff formed]
  rw [← closed_iff, ← body, readFilePatch?, cutLines_render old new oldSingle newSingle]
  constructor
  · intro same
    obtain ⟨found, read, shape⟩ := Option.map_eq_some_iff.mp same
    rw [read, (FilePatch.mk.inj shape).2.2]
  · intro read
    simp only [read, Option.map_some]
    rfl

/-- A written diff reads back as the hunks that were meant exactly when no
shown line ends in a lone carriage return.  Every piece behind the labels
begins like a line of a patch. -/
theorem fileDiff_reads_back_iff
    (old new : Bytes) (oldLabel newLabel : String)
    (different : old ≠ new)
    (oldSingle : '\n' ∉ oldLabel.toList) (newSingle : '\n' ∉ newLabel.toList) :
    ∃ written,
      fileDiff old new oldLabel newLabel = some written ∧
        (∃ pieces,
          cutLines written =
              Utf8.encode ("--- " ++ oldLabel) ::
                Utf8.encode ("+++ " ++ newLabel) :: pieces ∧
            ∀ piece ∈ pieces, BeginsPatchLine piece) ∧
        (readFilePatch? written = some (filePatch old new oldLabel newLabel) ↔
          ∀ hunk ∈ hunks old new, ∀ tagged ∈ hunk.lines,
            tagged.line.getLast? ≠ some carriageReturn) := by
  refine ⟨UnifiedDiff.render ⟨oldLabel, newLabel, hunks old new⟩, ?_,
    ⟨_, cutLines_render old new oldSingle newSingle, ?_⟩,
    readFilePatch?_iff old new oldSingle newSingle⟩
  · rw [fileDiff, unifiedDiff?_eq, if_neg different, Option.map_some]
  · intro piece member
    rw [← writeLines_patchLines] at member
    exact beginsPatchLine_of_mem_cutLines
      (fun line => wellFormed_of_mem_patchLines old new) member

/-- A file whose lines end in carriage returns and line feeds. -/
theorem fileDiff_reads_back_crlf :
    let old := Utf8.encode "x\r\ny"
    let new := Utf8.encode "x\r\nz"
    old ≠ new ∧ '\n' ∉ "a".toList ∧ '\n' ∉ "b".toList ∧
      ∃ written,
        fileDiff old new "a" "b" = some written ∧
          readFilePatch? written = some (filePatch old new "a" "b") := by
  intro old new
  have different : old ≠ new := by decide
  have oldSingle : '\n' ∉ "a".toList := by decide
  have newSingle : '\n' ∉ "b".toList := by decide
  obtain ⟨written, writes, _, reads⟩ :=
    fileDiff_reads_back_iff old new "a" "b" different oldSingle newSingle
  refine ⟨different, oldSingle, newSingle, written, writes, reads.mpr ?_⟩
  have found :
      hunks old new =
        [⟨⟨0, 2⟩, ⟨0, 2⟩,
          [⟨.context, [120, 13, 10]⟩, ⟨.removed, [121]⟩, ⟨.added, [122]⟩]⟩] := by
    cbv
  rw [found]
  decide

/-- The lines `x` and `y` of two files with lone carriage returns are written
as one line, which no reader can take apart. -/
theorem fileDiff_of_lone_carriage_returns :
    let old := Utf8.encode "x\r"
    let new := Utf8.encode "y\r"
    ∃ written,
      fileDiff old new "a" "b" = some written ∧
        readFilePatch? written ≠ some (filePatch old new "a" "b") := by
  intro old new
  have different : old ≠ new := by decide
  have found :
      hunks old new =
        [⟨⟨0, 1⟩, ⟨0, 1⟩, [⟨.removed, [120, 13]⟩, ⟨.added, [121, 13]⟩]⟩] := by
    cbv
  refine ⟨UnifiedDiff.render ⟨"a", "b", hunks old new⟩, ?_, ?_⟩
  · rw [fileDiff, unifiedDiff?_eq, if_neg different, Option.map_some]
  · rw [Ne, readFilePatch?_iff old new (by decide) (by decide), found]
    decide

end ReviewDiff.LineDiff

import ReviewDiff.Patch.EmptyFile
import ReviewDiff.Proofs.LineDiff.PatchLines

/-!
# Headers among other text

A header for an empty file is one line, so a reader that looks at one line
after another finds it wherever it stands at the start of a line.  The header
of a move has a mark of its own, and what a hunk shows never begins like a
header, whatever the content is.
-/

namespace ReviewDiff.Patch.EmptyFile

open LineDiff

/-! ## Texts on one line -/

/-- A text that stays on its line. -/
def SingleLine (text : String) : Prop :=
  '\n' ∉ text.toList

instance (text : String) : Decidable (SingleLine text) :=
  inferInstanceAs (Decidable ('\n' ∉ text.toList))

/-- A path in the depot: a `#` in it would start the revision. -/
structure DepotPath (path : String) : Prop where
  nonempty : path ≠ ""
  single : SingleLine path
  noHash : '#' ∉ path.toList

/-- A header whose parts can be told apart. -/
structure Header.Formed (header : Header) : Prop where
  depot : DepotPath header.depotPath
  revision : header.revision ≤ Text.max64
  named : header.localPath ≠ ""
  single : SingleLine header.localPath

theorem SingleLine.lineFeed_notMem
    {text : String} (single : SingleLine text) :
    lineFeed ∉ Utf8.encode text :=
  lineFeed_notMem_encode single

theorem SingleLine.append
    {front back : String} (first : SingleLine front) (second : SingleLine back) :
    SingleLine (front ++ back) := by
  unfold SingleLine
  rw [String.toList_append, List.mem_append, not_or]
  exact ⟨first, second⟩

theorem singleLine_toString (n : Nat) : SingleLine (toString n) :=
  Text.notMem_toString_of_not_isDigit (by decide) n

/-! ## One header -/

/-- A header line without its line feeds. -/
def headerLine (path : String) (revision : Nat) (mark target : String) : String :=
  "==== " ++ path ++ "#" ++ toString revision ++ " ==" ++ mark ++ "== " ++
    target ++ " ===="

theorem encode_specialHeader
    (path : String) (revision : Nat) (mark target : String) :
    Utf8.encode (specialHeader path revision mark target) =
      Utf8.encode (headerLine path revision mark target) ++ [lineFeed, lineFeed] := by
  have shape :
      specialHeader path revision mark target =
        "==== " ++ path ++ "#" ++ toString revision ++ " ==" ++ mark ++ "== " ++
          target ++ (" ====" ++ "\n" ++ "\n") :=
    rfl
  have feeds : [lineFeed, lineFeed] = [lineFeed] ++ [lineFeed] := rfl
  rw [feeds, ← List.append_assoc, ← encode_line, ← encode_line, shape, headerLine]
  simp only [String.append_assoc]

theorem singleLine_ofParts
    {depot digits mark target : String} (depotSingle : SingleLine depot)
    (digitsSingle : SingleLine digits) (marked : SingleLine mark)
    (targetSingle : SingleLine target) :
    SingleLine
      ("==== " ++ depot ++ "#" ++ digits ++ " ==" ++ mark ++ "== " ++ target ++ " ====") := by
  have begins : SingleLine "==== " := by decide
  have hash : SingleLine "#" := by decide
  have opens : SingleLine " ==" := by decide
  have closes : SingleLine "== " := by decide
  have ends : SingleLine " ====" := by decide
  have front := ((begins.append depotSingle).append hash).append digitsSingle
  have middle := ((front.append opens).append marked).append closes
  exact (middle.append targetSingle).append ends

theorem singleLine_headerLine
    {path mark target : String} (depot : SingleLine path)
    (marked : SingleLine mark) (single : SingleLine target) (revision : Nat) :
    SingleLine (headerLine path revision mark target) :=
  singleLine_ofParts depot (singleLine_toString revision) marked single

theorem readName?_encode {text : String} (nonempty : text ≠ "") :
    readName? (Utf8.encode text) = some text := by
  have present : (Utf8.encode text).isEmpty = false :=
    List.isEmpty_eq_false_iff.mpr (Utf8.encode_ne_nil nonempty)
  rw [readName?, present, if_neg Bool.false_ne_true, Utf8.decode?_encode]

theorem readRevision?_encode {revision : Nat} (fits : revision ≤ Text.max64) :
    readRevision? (Utf8.encode (toString revision)) = some revision := by
  rw [readRevision?, Utf8.decode?_encode]
  exact Text.readDigits?_toString fits

theorem beforeEnding?_append (front ending : Bytes) :
    beforeEnding? ending (front ++ ending) = some front := by
  have found :
      ending.reverse.isPrefixOf? (front ++ ending).reverse = some front.reverse := by
    rw [List.isPrefixOf?_eq_some_iff_append_eq, List.reverse_append]
  rw [beforeEnding?, found, Option.map_some, List.reverse_reverse]

/-- How a line with a depot path and a revision is read: by what follows. -/
theorem readHeader?_eq
    {path : String} (depot : DepotPath path) (revision : Nat) (rest : Bytes) :
    readHeader?
        (Utf8.encode "==== " ++
          (Utf8.encode path ++
            35 :: (Utf8.encode (toString revision) ++ 32 :: rest))) = do
      let number ← readRevision? (Utf8.encode (toString revision))
      let (operation, target) ← readMark? (32 :: rest)
      let localPath ← readName? (← beforeEnding? (Utf8.encode " ====") target)
      return ⟨path, number, operation, localPath⟩ := by
  have begins :
      (Utf8.encode "==== ").isPrefixOf?
          (Utf8.encode "==== " ++
            (Utf8.encode path ++
              35 :: (Utf8.encode (toString revision) ++ 32 :: rest))) = some _ :=
    List.isPrefixOf?_eq_some_iff_append_eq.mpr rfl
  have noHash : (35 : UInt8) ∉ Utf8.encode path :=
    Utf8.notMem_encode (by decide) rfl depot.noHash
  have noBlank : (32 : UInt8) ∉ Utf8.encode (toString revision) :=
    Utf8.notMem_encode (c := ' ') (by decide) rfl
      (Text.notMem_toString_of_not_isDigit (by decide) revision)
  rw [readHeader?, begins]
  simp only [Option.bind_eq_bind, Option.bind_some, Text.span_separator noHash,
    readName?_encode depot.nonempty, List.drop_one, List.tail_cons,
    Text.span_separator noBlank]

theorem encode_headerLine
    (path : String) (revision : Nat) (mark target : String) :
    Utf8.encode (headerLine path revision mark target) =
      Utf8.encode "==== " ++
        (Utf8.encode path ++
          35 :: (Utf8.encode (toString revision) ++
            32 :: (Utf8.encode "==" ++
              (Utf8.encode mark ++
                (Utf8.encode "== " ++
                  (Utf8.encode target ++ Utf8.encode " ====")))))) := by
  simp only [headerLine, Utf8.encode_append, List.append_assoc]
  rfl

/-- A header reads back as itself. -/
theorem readHeader?_headerLine
    {header : Header} (formed : header.Formed) :
    readHeader?
        (Utf8.encode
          (headerLine header.depotPath header.revision header.operation.mark
            header.localPath)) =
      some header := by
  have marked : ∀ rest,
      readMark?
          (32 :: (Utf8.encode "==" ++
            (Utf8.encode header.operation.mark ++ (Utf8.encode "== " ++ rest)))) =
        some (header.operation, rest) := by
    intro rest
    cases header.operation <;> rfl
  rw [encode_headerLine, readHeader?_eq formed.depot,
    readRevision?_encode formed.revision, marked]
  simp only [Option.bind_eq_bind, Option.bind_some, beforeEnding?_append,
    readName?_encode formed.named]
  rfl

/-- A line with another mark is no header. -/
theorem readHeader?_of_mark
    {path : String} (depot : DepotPath path) (revision : Nat) {mark : String}
    (unmarked : ∀ rest,
      readMark? (32 :: (Utf8.encode "==" ++ (Utf8.encode mark ++ rest))) = none)
    (target : String) :
    readHeader? (Utf8.encode (headerLine path revision mark target)) = none := by
  rw [encode_headerLine, readHeader?_eq depot, unmarked]
  cases readRevision? (Utf8.encode (toString revision)) <;> rfl

/-- A header begins with an equals sign. -/
theorem readHeader?_of_first
    {first : UInt8} (other : first ≠ 61) (rest : Bytes) :
    readHeader? (first :: rest) = none := by
  have different : ¬(61 == first) = true := by
    rw [beq_iff_eq]
    exact Ne.symm other
  have begins : (Utf8.encode "==== ").isPrefixOf? (first :: rest) = none :=
    if_neg different
  rw [readHeader?, begins]
  rfl

theorem readHeader?_of_begins
    {piece : Bytes} (begins : BeginsPatchLine piece) :
    readHeader? piece = none := by
  rcases begins with ⟨rest, rfl⟩ | ⟨sign, isSign, rest, rfl⟩
  · exact readHeader?_of_first (by decide) _
  · refine readHeader?_of_first ?_ rest
    rintro rfl
    exact absurd isSign (by decide)

/-! ## Headers among pieces -/

theorem splitOn_lineFeed (text : Bytes) :
    text.splitOn lineFeed = cutLines text ∨
      text.splitOn lineFeed = cutLines text ++ [[]] := by
  induction text with
  | nil => exact Or.inr rfl
  | cons byte rest inductionHypothesis =>
      rw [List.splitOn_cons_eq_if_modifyHead, cutLines]
      by_cases feed : byte = lineFeed
      · rw [if_pos feed, if_pos (beq_iff_eq.mpr feed)]
        rcases inductionHypothesis with same | longer
        · exact Or.inl (by rw [same])
        · exact Or.inr (by rw [longer, List.cons_append])
      · rw [if_neg feed, if_neg (fun same => feed (beq_iff_eq.mp same))]
        cases shape : cutLines rest with
        | nil =>
            rw [shape] at inductionHypothesis
            rcases inductionHypothesis with same | longer
            · exact absurd same (List.splitOn_ne_nil lineFeed rest)
            · exact Or.inl (by rw [longer]; rfl)
        | cons first others =>
            rw [shape] at inductionHypothesis
            rcases inductionHypothesis with same | longer
            · exact Or.inl (by rw [same]; rfl)
            · exact Or.inr (by rw [longer]; rfl)

/-- The empty piece behind the last line feed is no header. -/
theorem readHeaders_eq (patch : Bytes) :
    readHeaders patch = (cutLines patch).filterMap readHeader? := by
  have empty : readHeader? [] = none := rfl
  rw [readHeaders]
  rcases splitOn_lineFeed patch with same | longer
  · exact congrArg (List.filterMap readHeader?) same
  · refine (congrArg (List.filterMap readHeader?) longer).trans ?_
    rw [List.filterMap_append, List.filterMap_cons_none empty, List.filterMap_nil,
      List.append_nil]

/-- A text whose first piece is the header given, if any, and whose further
pieces are none.  An open text swallows the first piece behind it. -/
def CutsAs (text : Bytes) (header : Option Header) (isOpen : Bool) : Prop :=
  ∀ back, ∃ first pieces,
    cutLines (text ++ back) =
        first :: (pieces ++ if isOpen then (cutLines back).tail else cutLines back) ∧
      readHeader? first = header ∧
        ∀ piece ∈ pieces, readHeader? piece = none

theorem cutsAs_line {line : Bytes} (absent : lineFeed ∉ line) :
    CutsAs (line ++ [lineFeed]) (readHeader? line) false := by
  intro back
  refine ⟨line, [], ?_, rfl, List.forall_mem_nil _⟩
  rw [List.append_assoc, List.singleton_append, cutLines_lineFeed absent]
  rfl

theorem CutsAs.append
    {front back : Bytes} {header : Option Header} {isOpen : Bool}
    (first : CutsAs front header false) (second : CutsAs back none isOpen) :
    CutsAs (front ++ back) header isOpen := by
  intro rest
  obtain ⟨backFirst, backPieces, backCut, backHeader, backNone⟩ := second rest
  obtain ⟨frontFirst, frontPieces, frontCut, frontHeader, frontNone⟩ :=
    first (back ++ rest)
  refine ⟨frontFirst, frontPieces ++ backFirst :: backPieces, ?_, frontHeader, ?_⟩
  · rw [List.append_assoc, frontCut, backCut]
    simp
  · rw [List.forall_mem_append, List.forall_mem_cons]
    exact ⟨frontNone, backHeader, backNone⟩

/-- A line that begins with a fixed text other than that of a header. -/
theorem cutsAs_textLine
    {mark label : String} (single : SingleLine mark) (labelSingle : SingleLine label)
    {first : UInt8} {rest : Bytes} (shape : Utf8.encode mark = first :: rest)
    (other : first ≠ 61) :
    CutsAs (Utf8.encode (mark ++ label) ++ [lineFeed]) none false := by
  have cuts := cutsAs_line (single.append labelSingle).lineFeed_notMem
  have noHeader : readHeader? (Utf8.encode (mark ++ label)) = none := by
    rw [Utf8.encode_append, shape]
    exact readHeader?_of_first other _
  rwa [noHeader] at cuts

theorem cutsAs_specialHeader
    {path mark target : String} (depot : SingleLine path) (marked : SingleLine mark)
    (single : SingleLine target) (revision : Nat) :
    CutsAs (Utf8.encode (specialHeader path revision mark target))
      (readHeader? (Utf8.encode (headerLine path revision mark target))) false := by
  have line := singleLine_headerLine depot marked single revision
  have blank : CutsAs ([] ++ [lineFeed]) none false :=
    cutsAs_line List.not_mem_nil
  have both := (cutsAs_line line.lineFeed_notMem).append blank
  rw [encode_specialHeader]
  rwa [List.append_assoc] at both

/-- What hunks show is never a header. -/
theorem cutsAs_writeLines
    {lines : List PatchLine} (formed : ∀ line ∈ lines, line.WellFormed)
    {last : PatchLine} (ends : lines.getLast? = some last) :
    CutsAs (writeLines lines) none (!decide last.Closed) := by
  intro back
  obtain ⟨pieces, nonempty, allBegin, cut⟩ :=
    cutLines_writeLines_append formed ends back
  cases pieces with
  | nil => exact absurd rfl nonempty
  | cons first rest =>
      have noHeader : ∀ piece ∈ first :: rest, readHeader? piece = none :=
        fun piece member => readHeader?_of_begins (allBegin piece member)
      rw [List.forall_mem_cons] at noHeader
      refine ⟨first, rest, ?_, noHeader.1, noHeader.2⟩
      rw [cut]
      by_cases closed : last.Closed <;> simp [closed]

end ReviewDiff.Patch.EmptyFile

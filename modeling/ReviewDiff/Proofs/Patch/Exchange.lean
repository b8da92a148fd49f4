import ReviewDiff.Proofs.Patch.EmptyFile
import ReviewDiff.Proofs.Text.Line

/-!
# Exchanged marks

A patch in which the marks of all headers are exchanged has the same headers, in
the same order, and each of them says the opposite.
-/

namespace ReviewDiff.Patch.EmptyFile

/-! ## The parts of a header -/

/-- A mark with what stands around it. -/
def markBytes (operation : Operation) : Bytes :=
  Utf8.encode (" ==" ++ operation.mark ++ "== ")

/-- A line put together like a header. -/
def headerBytes (depot digits : Bytes) (operation : Operation) (target : Bytes) : Bytes :=
  Utf8.encode "==== " ++
    (depot ++ 35 :: (digits ++ (markBytes operation ++ (target ++ Utf8.encode " ===="))))

theorem readMark?_markBytes (operation : Operation) (rest : Bytes) :
    readMark? (markBytes operation ++ rest) = some (operation, rest) := by
  cases operation <;> rfl

theorem eq_of_readMark?
    {bytes rest : Bytes} {operation : Operation}
    (reads : readMark? bytes = some (operation, rest)) :
    bytes = markBytes operation ++ rest := by
  unfold readMark? at reads
  split at reads
  · rename_i after found
    cases reads
    exact (List.isPrefixOf?_eq_some_iff_append_eq.mp found).symm
  · obtain ⟨after, found, same⟩ := Option.map_eq_some_iff.mp reads
    cases same
    exact (List.isPrefixOf?_eq_some_iff_append_eq.mp found).symm

theorem eq_of_beforeEnding?
    {ending bytes front : Bytes} (found : beforeEnding? ending bytes = some front) :
    bytes = front ++ ending := by
  obtain ⟨reversed, isPrefix, rfl⟩ := Option.map_eq_some_iff.mp found
  have shape := List.isPrefixOf?_eq_some_iff_append_eq.mp isPrefix
  rw [← List.reverse_reverse bytes, ← shape, List.reverse_append, List.reverse_reverse]

/-- The parts of a line are those of a header. -/
structure ReadsAs (depot digits target : Bytes) (header : Header) : Prop where
  depotPath : readName? depot = some header.depotPath
  noHash : 35 ∉ depot
  revision : readRevision? digits = some header.revision
  noBlank : 32 ∉ digits
  localPath : readName? target = some header.localPath

/-- A line put together like a header is read part by part. -/
theorem readHeader?_of_parts
    {depot digits : Bytes} (noHash : 35 ∉ depot) (noBlank : 32 ∉ digits)
    (operation : Operation) (target : Bytes) :
    readHeader? (headerBytes depot digits operation target) = do
      let depotPath ← readName? depot
      let revision ← readRevision? digits
      let localPath ← readName? target
      return ⟨depotPath, revision, operation, localPath⟩ := by
  have begins :
      (Utf8.encode "==== ").isPrefixOf? (headerBytes depot digits operation target) = some _ :=
    List.isPrefixOf?_eq_some_iff_append_eq.mpr rfl
  obtain ⟨rest, shape⟩ :
      ∃ rest, markBytes operation ++ (target ++ Utf8.encode " ====") = 32 :: rest := by
    cases operation <;> exact ⟨_, rfl⟩
  have blank :
      (digits ++ (markBytes operation ++ (target ++ Utf8.encode " ===="))).span (· ≠ 32) =
        (digits, markBytes operation ++ (target ++ Utf8.encode " ====")) := by
    rw [shape]
    exact Text.span_separator noBlank rest
  rw [readHeader?, begins]
  simp only [Option.bind_eq_bind, Option.bind_some, Text.span_separator noHash,
    List.drop_one, List.tail_cons, blank, readMark?_markBytes, beforeEnding?_append]

theorem readHeader?_headerBytes
    {depot digits target : Bytes} {header : Header}
    (reads : ReadsAs depot digits target header) :
    readHeader? (headerBytes depot digits header.operation target) = some header := by
  rw [readHeader?_of_parts reads.noHash reads.noBlank, reads.depotPath, reads.revision,
    reads.localPath]
  rfl

theorem exists_of_readHeader?
    {line : Bytes} {header : Header} (found : readHeader? line = some header) :
    ∃ depot digits target, line = headerBytes depot digits header.operation target ∧
      ReadsAs depot digits target header := by
  have unmarked : readMark? [] = none := rfl
  simp only [readHeader?, Option.bind_eq_bind, Option.bind_eq_some_iff] at found
  obtain ⟨rest, begins, depotPath, depotReads, revision, revisionReads, ⟨operation, after⟩,
    markReads, target, ending, localPath, targetReads, same⟩ := found
  obtain rfl := (List.isPrefixOf?_eq_some_iff_append_eq.mp begins).symm
  by_cases hash : 35 ∈ rest
  · obtain ⟨depot, behind, rfl, noHash⟩ := List.eq_append_cons_of_mem hash
    simp only [Text.span_separator noHash, List.drop_one, List.tail_cons] at *
    by_cases blank : 32 ∈ behind
    · obtain ⟨digits, back, rfl, noBlank⟩ := List.eq_append_cons_of_mem blank
      simp only [Text.span_separator noBlank] at *
      cases same
      refine
        ⟨depot, digits, target, ?_, ⟨depotReads, noHash, revisionReads, noBlank, targetReads⟩⟩
      rw [headerBytes, eq_of_readMark? markReads, eq_of_beforeEnding? ending]
    · simp only [Text.span_of_notMem blank, unmarked] at markReads
      cases markReads
  · simp only [Text.span_of_notMem hash, List.drop_nil] at markReads
    cases markReads

/-! ## Exchange -/

/-- A header that says the opposite. -/
def Header.reversed (header : Header) : Header :=
  { header with operation := header.operation.reversed }

/-- A line with the mark of the header exchanged for the other one.  The mark
stands behind the first blank that follows the first `#`.  A line that is no
header stays. -/
def exchangeMark (line : Bytes) : Bytes :=
  if (readHeader? line).isNone then line
  else
    let (path, behindPath) := line.span (· ≠ 35)
    let (revision, behindRevision) := behindPath.span (· ≠ 32)
    match readMark? behindRevision with
    | some (operation, rest) => path ++ revision ++ markBytes operation.reversed ++ rest
    | none => line

/-- A patch with the marks of all headers exchanged. -/
def exchangeMarks (patch : Bytes) : Bytes :=
  [10].intercalate ((patch.splitOn 10).map exchangeMark)

theorem ReadsAs.reversed
    {depot digits target : Bytes} {header : Header}
    (reads : ReadsAs depot digits target header) :
    ReadsAs depot digits target header.reversed :=
  ⟨reads.depotPath, reads.noHash, reads.revision, reads.noBlank, reads.localPath⟩

theorem exchangeMark_headerBytes
    {depot digits target : Bytes} {header : Header}
    (reads : ReadsAs depot digits target header) :
    exchangeMark (headerBytes depot digits header.operation target) =
      headerBytes depot digits header.operation.reversed target := by
  have noHash : (35 : UInt8) ∉ Utf8.encode "==== " ++ depot := by
    rw [List.mem_append, not_or]
    exact ⟨by decide, reads.noHash⟩
  have noBlank : (32 : UInt8) ∉ 35 :: digits := by
    rw [List.mem_cons, not_or]
    exact ⟨by decide, reads.noBlank⟩
  obtain ⟨rest, marked⟩ :
      ∃ rest, markBytes header.operation ++ (target ++ Utf8.encode " ====") = 32 :: rest := by
    cases header.operation <;> exact ⟨_, rfl⟩
  have path :
      (headerBytes depot digits header.operation target).span (· ≠ 35) =
        (Utf8.encode "==== " ++ depot,
          35 ::
            (digits ++ (markBytes header.operation ++ (target ++ Utf8.encode " ====")))) := by
    rw [headerBytes, ← List.append_assoc]
    exact Text.span_separator noHash _
  have revision :
      (35 :: (digits ++ (markBytes header.operation ++ (target ++ Utf8.encode " ====")))).span
          (· ≠ 32) =
        (35 :: digits, markBytes header.operation ++ (target ++ Utf8.encode " ====")) := by
    rw [marked]
    exact Text.span_separator noBlank rest
  rw [exchangeMark, readHeader?_headerBytes reads, Option.isNone_some,
    if_neg Bool.false_ne_true]
  simp only [path, revision, readMark?_markBytes]
  simp only [headerBytes, List.append_assoc, List.cons_append]

theorem encode_headerLine_eq_headerBytes
    (path : String) (revision : Nat) (operation : Operation) (target : String) :
    Utf8.encode (headerLine path revision operation.mark target) =
      headerBytes (Utf8.encode path) (Utf8.encode (toString revision)) operation
        (Utf8.encode target) := by
  rw [encode_headerLine]
  cases operation <;> rfl

theorem Header.Formed.readsAs {header : Header} (formed : header.Formed) :
    ReadsAs (Utf8.encode header.depotPath) (Utf8.encode (toString header.revision))
      (Utf8.encode header.localPath) header where
  depotPath := readName?_encode formed.depot.nonempty
  noHash := Utf8.notMem_encode (by decide) rfl formed.depot.noHash
  revision := readRevision?_encode formed.revision
  noBlank :=
    Utf8.notMem_encode (c := ' ') (by decide) rfl
      (Text.notMem_toString_of_not_isDigit (by decide) header.revision)
  localPath := readName?_encode formed.named

/-- A written header with its mark exchanged is the written header for the
opposite operation. -/
theorem exchangeMark_headerLine {header : Header} (formed : header.Formed) :
    exchangeMark
        (Utf8.encode
          (headerLine header.depotPath header.revision header.operation.mark
            header.localPath)) =
      Utf8.encode
        (headerLine header.depotPath header.revision header.operation.reversed.mark
          header.localPath) := by
  rw [encode_headerLine_eq_headerBytes, encode_headerLine_eq_headerBytes]
  exact exchangeMark_headerBytes formed.readsAs

/-- The headers of lines say the opposite once the marks are exchanged. -/
theorem readHeader?_exchangeMark (line : Bytes) :
    readHeader? (exchangeMark line) = (readHeader? line).map Header.reversed := by
  cases found : readHeader? line with
  | none =>
      have stays : exchangeMark line = line := by
        rw [exchangeMark, found, Option.isNone_none, if_pos rfl]
      rw [stays, found]
      rfl
  | some header =>
      obtain ⟨depot, digits, target, rfl, reads⟩ := exists_of_readHeader? found
      have opposite : header.operation.reversed = header.reversed.operation := rfl
      rw [exchangeMark_headerBytes reads, opposite, readHeader?_headerBytes reads.reversed,
        Option.map_some]

theorem notMem_exchangeMark {line : Bytes} (single : 10 ∉ line) : 10 ∉ exchangeMark line := by
  cases found : readHeader? line with
  | none => rwa [exchangeMark, found, Option.isNone_none, if_pos rfl]
  | some header =>
      obtain ⟨depot, digits, target, rfl, reads⟩ := exists_of_readHeader? found
      have marked : ∀ operation, 10 ∉ markBytes operation := by
        intro operation
        cases operation <;> decide
      rw [exchangeMark_headerBytes reads]
      simp only [headerBytes, List.mem_append, List.mem_cons, not_or] at single ⊢
      exact
        ⟨single.1, single.2.1, single.2.2.1, single.2.2.2.1, marked _, single.2.2.2.2.2⟩

/-- The headers of a patch say the opposite once the marks are exchanged. -/
theorem readHeaders_exchangeMarks (patch : Bytes) :
    readHeaders (exchangeMarks patch) = (readHeaders patch).map Header.reversed := by
  have lines : (exchangeMarks patch).splitOn 10 = (patch.splitOn 10).map exchangeMark := by
    refine List.splitOn_intercalate 10 ?_
      (mt List.map_eq_nil_iff.mp (List.splitOn_ne_nil 10 patch))
    intro line member
    obtain ⟨original, isLine, rfl⟩ := List.mem_map.mp member
    exact notMem_exchangeMark (Text.notMem_of_mem_splitOn isLine)
  rw [readHeaders, lines, readHeaders, List.filterMap_map, List.map_filterMap]
  exact congrArg (List.filterMap · (patch.splitOn 10)) (funext readHeader?_exchangeMark)

end ReviewDiff.Patch.EmptyFile

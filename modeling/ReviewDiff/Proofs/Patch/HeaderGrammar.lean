import ReviewDiff.Proofs.Patch.Exchange
import ReviewDiff.Proofs.Text.WellFormed

/-!
# The grammar of headers

A header for an empty file is a whole line `==== D#R ==O== L ====`.  Looking for
it as a pattern, from left to right in a whole patch, finds the same headers as
reading the patch line by line.

* `readHeader?_eq_some_iff` says which lines are headers.
* `captures_iff` says that the pattern finds the headers of the lines.
-/

namespace ReviewDiff.Patch.EmptyFile

open LineDiff

/-! ## Parts -/

/-- A line put together from the parts of a header. -/
def partsLine (depot digits : String) (operation : Operation) (target : String) : String :=
  "==== " ++ depot ++ "#" ++ digits ++ " ==" ++ operation.mark ++ "== " ++ target ++ " ===="

/-- Decimal digits, which may begin with zeros, for a number of 64 bits. -/
structure Numeral (digits : String) (n : Nat) : Prop where
  nonempty : digits ≠ ""
  decimal : ∀ c ∈ digits.toList, c.isDigit = true
  value : Text.decimalValue digits.toList = n
  fits : n < 2 ^ 64

/-- The line is the header, with the revision in some digits. -/
def Spelled (line : Bytes) (header : Header) : Prop :=
  ∃ digits,
    line =
        Utf8.encode
          (partsLine header.depotPath digits header.operation header.localPath) ∧
      (header.depotPath ≠ "" ∧ '#' ∉ header.depotPath.toList) ∧
      Numeral digits header.revision ∧ header.localPath ≠ ""

theorem encode_partsLine
    (depot digits : String) (operation : Operation) (target : String) :
    Utf8.encode (partsLine depot digits operation target) =
      headerBytes (Utf8.encode depot) (Utf8.encode digits) operation
        (Utf8.encode target) := by
  simp only [partsLine, headerBytes, markBytes, Utf8.encode_append, List.append_assoc]
  rfl

theorem readName?_eq_some_iff {bytes : Bytes} {text : String} :
    readName? bytes = some text ↔ text ≠ "" ∧ bytes = Utf8.encode text := by
  constructor
  · intro reads
    rw [readName?] at reads
    split at reads
    · cases reads
    · rename_i nonempty
      obtain rfl := Utf8.decode?_eq_some_iff.mp reads
      refine ⟨?_, rfl⟩
      rintro rfl
      exact nonempty rfl
  · rintro ⟨nonempty, rfl⟩
    exact readName?_encode nonempty

theorem readDigits?_eq_some_iff {digits : String} {n : Nat} :
    Text.readDigits? Text.max64 digits.toList = some n ↔ Numeral digits n := by
  have bound : ∀ m, m ≤ Text.max64 ↔ m < 2 ^ 64 := by
    intro m
    have size : Text.max64 + 1 = 2 ^ 64 := by decide
    omega
  rw [Text.readDigits?]
  constructor
  · intro reads
    split at reads
    · cases reads
    rename_i digitsOnly
    split at reads
    · rename_i fits
      cases reads
      simp only [Bool.or_eq_true, List.isEmpty_iff, Bool.not_eq_true', not_or,
        Bool.not_eq_false, List.all_eq_true] at digitsOnly
      exact ⟨mt String.toList_eq_nil_iff.mpr digitsOnly.1, digitsOnly.2, rfl,
        (bound _).mp fits⟩
    · cases reads
  · rintro ⟨nonempty, decimal, rfl, fits⟩
    have someDigit : digits.toList.isEmpty = false :=
      List.isEmpty_eq_false_iff.mpr (mt String.toList_eq_nil_iff.mp nonempty)
    have allDigits : digits.toList.all Char.isDigit = true := List.all_eq_true.mpr decimal
    rw [someDigit, allDigits, if_pos ((bound _).mpr fits)]
    rfl

theorem readRevision?_encode_eq (digits : String) :
    readRevision? (Utf8.encode digits) =
      Text.readDigits? Text.max64 digits.toList := by
  rw [readRevision?, Utf8.decode?_encode]

/-! ## Lines -/

/-- How a line is read that is put together from parts that can be told apart. -/
theorem readHeader?_partsLine
    {depot digits target : String} (named : depot ≠ "") (noHash : '#' ∉ depot.toList)
    (noBlank : ' ' ∉ digits.toList) (targeted : target ≠ "") (operation : Operation) :
    readHeader? (Utf8.encode (partsLine depot digits operation target)) =
      (Text.readDigits? Text.max64 digits.toList).map
        fun revision => ⟨depot, revision, operation, target⟩ := by
  have noHashByte : (35 : UInt8) ∉ Utf8.encode depot :=
    Utf8.notMem_encode (by decide) rfl noHash
  have noBlankByte : (32 : UInt8) ∉ Utf8.encode digits :=
    Utf8.notMem_encode (by decide) rfl noBlank
  rw [encode_partsLine, readHeader?_of_parts noHashByte noBlankByte, readName?_encode named,
    readName?_encode targeted, readRevision?_encode_eq]
  cases Text.readDigits? Text.max64 digits.toList <;> rfl

theorem Numeral.blank_notMem {digits : String} {n : Nat} (numeral : Numeral digits n) :
    ' ' ∉ digits.toList := by
  intro member
  exact absurd (numeral.decimal ' ' member) (by decide)

theorem readHeader?_eq_some_iff {line : Bytes} {header : Header} :
    readHeader? line = some header ↔ Spelled line header := by
  constructor
  · intro found
    obtain ⟨depotBytes, digitBytes, targetBytes, rfl, reads⟩ := exists_of_readHeader? found
    obtain ⟨named, rfl⟩ := readName?_eq_some_iff.mp reads.depotPath
    obtain ⟨targeted, rfl⟩ := readName?_eq_some_iff.mp reads.localPath
    have revision := reads.revision
    rw [readRevision?] at revision
    cases spelled : Utf8.decode? digitBytes with
    | none =>
        rw [spelled] at revision
        cases revision
    | some digits =>
        rw [spelled] at revision
        obtain rfl := Utf8.decode?_eq_some_iff.mp spelled
        refine ⟨digits, (encode_partsLine _ _ _ _).symm, ⟨named, ?_⟩,
          readDigits?_eq_some_iff.mp revision, targeted⟩
        intro member
        exact reads.noHash (List.mem_flatMap.mpr ⟨'#', member, by decide⟩)
  · rintro ⟨digits, rfl, ⟨named, noHash⟩, numeral, targeted⟩
    rw [readHeader?_partsLine named noHash numeral.blank_notMem targeted,
      readDigits?_eq_some_iff.mpr numeral]
    rfl

theorem readHeaders_append (front back : Bytes) :
    readHeaders (front ++ lineFeed :: back) = readHeaders front ++ readHeaders back := by
  rw [readHeaders, readHeaders, readHeaders, ← List.filterMap_append]
  refine congrArg (List.filterMap readHeader?) ?_
  induction front with
  | nil => rfl
  | cons byte front inductionHypothesis =>
      rw [List.cons_append, List.splitOn_cons_eq_if_modifyHead,
        List.splitOn_cons_eq_if_modifyHead, inductionHypothesis]
      obtain ⟨first, more, shape⟩ :=
        List.exists_cons_of_ne_nil (List.splitOn_ne_nil (10 : UInt8) front)
      rw [shape]
      split <;> rfl

theorem readHeaders_line {line : Bytes} (single : lineFeed ∉ line) :
    readHeaders line = (readHeader? line).toList := by
  have whole : line.splitOn 10 = [line] := List.splitOn_eq_singleton single
  rw [readHeaders, whole, List.filterMap_cons, List.filterMap_nil]
  cases readHeader? line <;> rfl

/-! ## The pattern in a patch -/

/-- A class of digits: among the ASCII characters it has just the ten digits. -/
def IsDigitClass (digit : Char → Prop) : Prop :=
  ∀ c : Char, c.toNat < 128 → (digit c ↔ c.isDigit = true)

/-- The pattern fits the start of a text, up to the end of a line. -/
structure Fits (digit : Char → Prop) (text : Bytes) (depot digits : String)
    (operation : Operation) (target : String) (rest : Bytes) : Prop where
  shape : text = Utf8.encode (partsLine depot digits operation target) ++ rest
  depot : depot ≠ "" ∧ '\n' ∉ depot.toList ∧ '#' ∉ depot.toList
  digits : digits ≠ "" ∧ ∀ c ∈ digits.toList, digit c
  target : target ≠ "" ∧ '\n' ∉ target.toList
  ended : ∀ byte ∈ rest.head?, byte = lineFeed

/-- Headers that are found in a text from left to right, given whether it begins
a line.  The pattern is tried at the starts of lines, the search goes on behind a
match, and a match whose digits are no revision is passed over. -/
inductive Captures (digit : Char → Prop) : Bool → Bytes → List Header → Prop where
  | finished (lineStart : Bool) : Captures digit lineStart [] []
  | matched {text : Bytes} {depot digits : String} {operation : Operation}
      {target : String} {rest : Bytes} {headers : List Header}
      (fits : Fits digit text depot digits operation target rest)
      (others : Captures digit false rest headers) :
      Captures digit true text
        (((Text.readNat64? digits).map
          fun revision => ⟨depot, revision, operation, target⟩).toList ++ headers)
  | skipped {lineStart : Bool} {byte : UInt8} {text : Bytes} {headers : List Header}
      (nothing : lineStart = true → ∀ depot digits operation target rest,
        ¬ Fits digit (byte :: text) depot digits operation target rest)
      (others : Captures digit (byte = lineFeed) text headers) :
      Captures digit lineStart (byte :: text) headers

section Captures

variable {digit : Char → Prop}

theorem IsDigitClass.of_isDigit
    (isClass : IsDigitClass digit) {c : Char} (decimal : c.isDigit = true) : digit c := by
  refine (isClass c ?_).mpr decimal
  simp only [Char.isDigit, Bool.and_eq_true, decide_eq_true_eq] at decimal
  exact Nat.lt_of_le_of_lt decimal.2 (by decide)

theorem IsDigitClass.notMem
    (isClass : IsDigitClass digit) {c : Char} (ascii : c.toNat < 128)
    (other : c.isDigit = false) {digits : String} (all : ∀ c ∈ digits.toList, digit c) :
    c ∉ digits.toList := by
  intro member
  rw [(isClass c ascii).mp (all c member)] at other
  exact Bool.noConfusion other

theorem readNat64?_eq
    {digits : String} (unsigned : '+' ∉ digits.toList) :
    Text.readNat64? digits = Text.readDigits? Text.max64 digits.toList := by
  rw [Text.readNat64?, Text.readNat?]
  split
  · rename_i shape
    rw [shape] at unsigned
    exact absurd List.mem_cons_self unsigned
  · rfl

/-- What a match yields is what its line is read as. -/
theorem Fits.readHeader?_eq
    (isClass : IsDigitClass digit) {text rest : Bytes} {depot digits target : String}
    {operation : Operation} (fits : Fits digit text depot digits operation target rest) :
    readHeader? (Utf8.encode (partsLine depot digits operation target)) =
      (Text.readNat64? digits).map fun revision => ⟨depot, revision, operation, target⟩ := by
  rw [readNat64?_eq (isClass.notMem (by decide) (by decide) fits.digits.2)]
  exact readHeader?_partsLine fits.depot.1 fits.depot.2.2
    (isClass.notMem (by decide) (by decide) fits.digits.2) fits.target.1 operation

theorem singleLine_partsLine
    {depot digits target : String} (depotSingle : SingleLine depot)
    (digitsSingle : SingleLine digits) (targetSingle : SingleLine target)
    (operation : Operation) :
    SingleLine (partsLine depot digits operation target) := by
  have marked : SingleLine operation.mark := by cases operation <;> decide
  exact singleLine_ofParts depotSingle digitsSingle marked targetSingle

theorem lineFeed_mem_encode {text : String} (member : '\n' ∈ text.toList) :
    lineFeed ∈ Utf8.encode text :=
  List.mem_flatMap.mpr ⟨'\n', member, by decide⟩

section Line

variable {line tail : Bytes} (single : lineFeed ∉ line)
  (ended : ∀ byte ∈ tail.head?, byte = lineFeed)

include single ended

/-- At the start of a line the pattern fits the whole line, or not at all. -/
theorem Fits.line_eq
    (isClass : IsDigitClass digit) {depot digits target : String} {operation : Operation}
    {rest : Bytes} (fits : Fits digit (line ++ tail) depot digits operation target rest) :
    line = Utf8.encode (partsLine depot digits operation target) ∧ tail = rest := by
  have digitsSingle : SingleLine digits :=
    isClass.notMem (by decide) (by decide) fits.digits.2
  have whole := singleLine_partsLine fits.depot.2.1 digitsSingle fits.target.2 operation
  exact Text.append_end_inj single whole.lineFeed_notMem ended fits.ended fits.shape

theorem exists_fits_of_readHeader?
    (isClass : IsDigitClass digit) {header : Header} (found : readHeader? line = some header) :
    ∃ digits,
      Fits digit (line ++ tail) header.depotPath digits header.operation header.localPath
        tail := by
  obtain ⟨digits, shape, ⟨named, noHash⟩, numeral, targeted⟩ :=
    readHeader?_eq_some_iff.mp found
  have parts : ∀ {part : String}, (∀ byte ∈ Utf8.encode part, byte ∈ line) →
      '\n' ∉ part.toList :=
    fun inside member => single (inside lineFeed (lineFeed_mem_encode member))
  refine ⟨digits, ⟨congrArg (· ++ tail) shape, ⟨named, ?_, noHash⟩,
    ⟨numeral.nonempty, fun c member => isClass.of_isDigit (numeral.decimal c member)⟩,
    ⟨targeted, ?_⟩, ended⟩⟩
  all_goals
    apply parts
    intro byte member
    rw [shape, encode_partsLine, headerBytes]
    simp [member]

end Line

/-- Within a line nothing is found. -/
theorem captures_inside_iff
    {line : Bytes} (single : lineFeed ∉ line) {tail : Bytes} {headers : List Header} :
    Captures digit false (line ++ tail) headers ↔ Captures digit false tail headers := by
  induction line with
  | nil => rfl
  | cons byte line inductionHypothesis =>
      rw [List.mem_cons, not_or] at single
      have goesOn : decide (byte = lineFeed) = false := decide_eq_false (Ne.symm single.1)
      rw [← inductionHypothesis single.2, List.cons_append]
      constructor
      · rintro (_ | _ | ⟨-, others⟩)
        rwa [goesOn] at others
      · intro others
        refine .skipped nofun ?_
        rwa [goesOn]

/-- Where the pattern does not fit, the start of a line is like any other place. -/
theorem captures_unfit_iff
    {text : Bytes} {headers : List Header}
    (nothing : ∀ depot digits operation target rest,
      ¬ Fits digit text depot digits operation target rest) :
    Captures digit true text headers ↔ Captures digit false text headers := by
  constructor
  · rintro (_ | ⟨fits, -⟩ | ⟨-, others⟩)
    · exact .finished false
    · exact absurd fits (nothing _ _ _ _ _)
    · exact .skipped nofun others
  · intro captures
    cases captures with
    | finished => exact .finished true
    | skipped _ others => exact .skipped (fun _ => nothing) others

theorem captures_lineFeed_iff {text : Bytes} {headers : List Header} :
    Captures digit false (lineFeed :: text) headers ↔ Captures digit true text headers := by
  constructor
  · rintro (_ | _ | ⟨-, others⟩)
    exact others
  · exact fun others => .skipped nofun others

/-- The header of a line is found before those behind the line. -/
theorem captures_line_iff
    (isClass : IsDigitClass digit) {line tail : Bytes} (single : lineFeed ∉ line)
    (ended : ∀ byte ∈ tail.head?, byte = lineFeed) {headers : List Header} :
    Captures digit true (line ++ tail) headers ↔
      ∃ others, headers = (readHeader? line).toList ++ others ∧
        Captures digit false tail others := by
  by_cases fits :
      ∃ depot digits operation target rest,
        Fits digit (line ++ tail) depot digits operation target rest
  · obtain ⟨depot, digits, operation, target, rest, fits⟩ := fits
    have whole := fits.line_eq single ended isClass
    have read := fits.readHeader?_eq isClass
    rw [← whole.1] at read
    rw [read]
    constructor
    · generalize shape : line ++ tail = text
      rintro (_ | ⟨fits', others⟩ | ⟨nothing, -⟩)
      · rw [whole.1, encode_partsLine] at shape
        cases shape
      · rw [← shape] at fits'
        have whole' := fits'.line_eq single ended isClass
        have read' := fits'.readHeader?_eq isClass
        rw [← whole'.1, read] at read'
        rw [← whole'.2] at others
        exact ⟨_, by rw [read'], others⟩
      · rw [← shape] at nothing
        exact absurd fits (nothing rfl _ _ _ _ _)
    · rintro ⟨others, rfl, captures⟩
      rw [whole.2] at captures
      exact .matched fits captures
  · have unread : readHeader? line = none := by
      rw [Option.eq_none_iff_forall_ne_some]
      intro header found
      obtain ⟨digits, fitting⟩ := exists_fits_of_readHeader? single ended isClass found
      exact fits ⟨_, _, _, _, _, fitting⟩
    have nothing :
        ∀ depot digits operation target rest,
          ¬ Fits digit (line ++ tail) depot digits operation target rest :=
      fun _ _ _ _ _ fitting => fits ⟨_, _, _, _, _, fitting⟩
    rw [captures_unfit_iff nothing, captures_inside_iff single, unread]
    exact
      ⟨fun captures => ⟨headers, rfl, captures⟩, fun ⟨_, same, captures⟩ => same ▸ captures⟩

/-- The pattern finds the headers of the lines. -/
theorem captures_iff
    (isClass : IsDigitClass digit) {patch : Bytes} {headers : List Header} :
    Captures digit true patch headers ↔ headers = readHeaders patch := by
  have nothing : ∀ {others}, Captures digit false [] others ↔ others = [] := by
    intro others
    constructor
    · rintro (_ | _ | _)
      rfl
    · rintro rfl
      exact .finished false
  induction length : patch.length using Nat.strongRecOn generalizing patch headers with
  | ind bound inductionHypothesis =>
      by_cases member : lineFeed ∈ patch
      · obtain ⟨line, rest, rfl, single⟩ := List.eq_append_cons_of_mem member
        have shorter : rest.length < bound := by
          rw [← length, List.length_append, List.length_cons]
          omega
        rw [captures_line_iff isClass single (by simp), readHeaders_append,
          readHeaders_line single]
        simp only [captures_lineFeed_iff, inductionHypothesis _ shorter rfl,
          exists_eq_right]
      · have captures :
            Captures digit true (patch ++ []) headers ↔
              ∃ others, headers = (readHeader? patch).toList ++ others ∧
                Captures digit false [] others :=
          captures_line_iff isClass member (by simp)
        rw [List.append_nil] at captures
        rw [captures, readHeaders_line member]
        simp only [nothing, exists_eq_right, List.append_nil]

end Captures

/-! ## Patches -/

/-- A patch is read line by line, and a line is one header or none, as the grammar
says.  The pattern finds the same headers in a patch, whatever it takes for a digit
beyond the ten. -/
theorem readHeaders_reads_lines :
    (∀ front back,
      readHeaders (front ++ lineFeed :: back) = readHeaders front ++ readHeaders back) ∧
    (∀ line, lineFeed ∉ line →
      (∀ header, readHeaders line = [header] ↔ Spelled line header) ∧
        (readHeaders line = [] ↔ ∀ header, ¬ Spelled line header)) ∧
    ∀ digit patch headers, IsDigitClass digit →
      (Captures digit true patch headers ↔ headers = readHeaders patch) := by
  refine ⟨readHeaders_append, ?_, fun digit patch headers isClass => captures_iff isClass⟩
  intro line single
  have unread : readHeader? line = none ↔ ∀ header, ¬ Spelled line header := by
    simp only [← readHeader?_eq_some_iff, Option.eq_none_iff_forall_ne_some]
  rw [readHeaders_line single, Option.toList_eq_nil_iff, unread]
  refine ⟨fun header => ?_, Iff.rfl⟩
  rw [Option.toList_eq_singleton_iff, readHeader?_eq_some_iff]

example :
    readHeaders (Utf8.encode "==== //d/a#007 ==A== x ==== y ====") =
      [⟨"//d/a", 7, .added, "x ==== y"⟩] := by
  cbv

end ReviewDiff.Patch.EmptyFile

import ReviewDiff.Json.Printer
import ReviewDiff.Proofs.Json.Grammar
import ReviewDiff.Proofs.Json.PrintedNumber

/-!
# Printed values

Both layouts put the same parts into a text and differ only in the blanks between
them.

* `isText_compact` and `isText_pretty` say that a value is denoted by the texts
  that are printed for it.
-/

namespace ReviewDiff.Json

/-! ## Texts -/

theorem codeUnit_hexDigits {n : Nat} (small : n < 32) (rest : List Char) :
    CodeUnit (Text.hexDigits 4 n ++ rest) n rest := by
  have digits :
      ∀ n < 32,
        Text.hexDigits 4 n = ['0', '0', Nat.digitChar (n / 16), Nat.digitChar (n % 16)] := by
    decide
  have values : ∀ digit < 16, Text.hexValue? (Nat.digitChar digit) = some digit := by decide
  have zero : Text.hexValue? '0' = some 0 := rfl
  have read : CodeUnit (_ :: _ :: _ :: _ :: rest) _ rest :=
    .mk zero zero (values (n / 16) (by omega)) (values (n % 16) (by omega))
  have value : ((0 * 16 + 0) * 16 + n / 16) * 16 + n % 16 = n := by omega
  rw [value] at read
  rw [digits n small]
  exact read

theorem letter_escapeChar (c : Char) (rest : List Char) :
    Letter (escapeChar c ++ rest) c rest := by
  unfold escapeChar
  split
  case h_8 noQuote noBackslash _ _ _ _ _ =>
    split
    · rename_i control
      exact .unit (codeUnit_hexDigits control rest)
    · rename_i printable
      exact .plain (Nat.not_lt.mp printable) noQuote noBackslash
  all_goals
    apply Letter.short
    rfl

theorem quoted_quote (text : String) (rest : List Char) :
    Quoted (quote text ++ rest) text rest := by
  have letters :
      ∀ chars : List Char, Letters (chars.flatMap escapeChar ++ '"' :: rest) chars rest := by
    intro chars
    induction chars with
    | nil => exact .nil
    | cons c chars inductionHypothesis =>
        rw [List.flatMap_cons, List.append_assoc]
        exact .cons (letter_escapeChar c _) inductionHypothesis
  rw [quote, List.append_assoc]
  exact .mk (letters text.toList)

/-! ## Layouts -/

/-- The blanks before an item or a field, before the closing bracket, and behind a
colon. -/
structure Layout where
  gap : List Char
  ending : List Char
  behindColon : List Char
  blankGap : ∀ c ∈ gap, IsBlank c
  blankEnding : ∀ c ∈ ending, IsBlank c
  blankBehindColon : ∀ c ∈ behindColon, IsBlank c

namespace Layout

variable (layout : Layout) (write : Value → List Char)

/-- What is printed behind the first part of a list or a record. -/
def behind {α : Type} (bracket : Char) (part : α → List Char) : List α → List Char
  | [] => layout.ending ++ [bracket]
  | item :: rest => ',' :: layout.gap ++ part item ++ behind bracket part rest

/-- A field as it is printed. -/
def field (field : String × Value) : List Char :=
  quote field.1 ++ ':' :: layout.behindColon ++ write field.2

/-- A value as it is printed when the values in it are printed in such a way. -/
def print : Value → List Char
  | .list [] => ['[', ']']
  | .list (item :: rest) => '[' :: layout.gap ++ write item ++ layout.behind ']' write rest
  | .record [] => ['\x7b', '\x7d']
  | .record (field :: rest) =>
      '\x7b' :: layout.gap ++ layout.field write field ++
        layout.behind '\x7d' (layout.field write) rest
  | .null => "null".toList
  | .bool true => "true".toList
  | .bool false => "false".toList
  | .number value => numberText value
  | .text value => quote value

end Layout

/-- Without blanks. -/
def Layout.dense : Layout where
  gap := []
  ending := []
  behindColon := []
  blankGap := List.forall_mem_nil _
  blankEnding := List.forall_mem_nil _
  blankBehindColon := List.forall_mem_nil _

theorem isBlank_of_mem_newLine {depth : Nat} {c : Char} (member : c ∈ newLine depth) :
    IsBlank c := by
  rcases List.mem_cons.mp member with rfl | member
  · exact .inr (.inr (.inl rfl))
  · exact .inl (List.eq_of_mem_replicate member)

/-- One part in each line, inside `depth` others. -/
def Layout.lines (depth : Nat) : Layout where
  gap := newLine (depth + 1)
  ending := newLine depth
  behindColon := [' ']
  blankGap _ := isBlank_of_mem_newLine
  blankEnding _ := isBlank_of_mem_newLine
  blankBehindColon := List.forall_mem_singleton.mpr (.inl rfl)

theorem compactItems_eq (items : List Value) :
    compactItems items = Layout.dense.behind ']' compactChars items := by
  induction items with
  | nil => rfl
  | cons item items inductionHypothesis =>
      rw [compactItems, inductionHypothesis]
      rfl

theorem compactFields_eq (fields : List (String × Value)) :
    compactFields fields =
      Layout.dense.behind '\x7d' (Layout.dense.field compactChars) fields := by
  induction fields with
  | nil => rfl
  | cons field fields inductionHypothesis =>
      rw [compactFields, inductionHypothesis, Layout.behind, Layout.field]
      simp only [Layout.dense, List.append_assoc, List.cons_append, List.nil_append]

theorem compactChars_eq (value : Value) :
    compactChars value = Layout.dense.print compactChars value := by
  match value with
  | .null | .bool true | .bool false | .number _ | .text _ | .list [] | .record [] => rfl
  | .list (item :: items) =>
      rw [compactChars, compactItems_eq]
      rfl
  | .record ((key, value) :: fields) =>
      rw [compactChars, compactFields_eq, Layout.print, Layout.field]
      simp only [Layout.dense, List.append_assoc, List.cons_append, List.nil_append]

theorem prettyItems_eq (depth : Nat) (items : List Value) :
    prettyItems depth items =
      (Layout.lines depth).behind ']' (prettyChars (depth + 1)) items := by
  induction items with
  | nil => rfl
  | cons item items inductionHypothesis =>
      rw [prettyItems, inductionHypothesis]
      rfl

theorem prettyFields_eq (depth : Nat) (fields : List (String × Value)) :
    prettyFields depth fields =
      (Layout.lines depth).behind '\x7d'
        ((Layout.lines depth).field (prettyChars (depth + 1))) fields := by
  induction fields with
  | nil => rfl
  | cons field fields inductionHypothesis =>
      rw [prettyFields, inductionHypothesis, Layout.behind, Layout.field]
      simp only [Layout.lines, List.append_assoc, List.cons_append, List.nil_append]

theorem prettyChars_eq (depth : Nat) (value : Value) :
    prettyChars depth value = (Layout.lines depth).print (prettyChars (depth + 1)) value := by
  match value with
  | .null | .bool true | .bool false | .number _ | .text _ | .list [] | .record [] => rfl
  | .list (item :: items) =>
      rw [prettyChars, prettyItems_eq]
      rfl
  | .record ((key, value) :: fields) =>
      rw [prettyChars, prettyFields_eq, Layout.print, Layout.field]
      simp only [Layout.lines, List.append_assoc, List.cons_append, List.nil_append]

/-! ## Reading what is printed -/

theorem blanks_append
    {blanks : List Char} (blank : ∀ c ∈ blanks, IsBlank c) (rest : List Char) :
    Blanks (blanks ++ rest) rest := by
  induction blanks with
  | nil => exact .nil
  | cons c blanks inductionHypothesis =>
      obtain ⟨first, others⟩ := List.forall_mem_cons.mp blank
      exact .cons first (inductionHypothesis others)

namespace Layout

variable (layout : Layout) {write : Value → List Char} {rest : List Char}

/-- As it is printed, the part is read between blanks. -/
def Reads
    {α : Type} (part : List Char → α → List Char → Prop) (print : α → List Char) (item : α) :
    Prop :=
  ∀ ⦃behind rest : List Char⦄, Blanks behind rest →
    part (layout.gap ++ print item ++ behind) item rest

/-- Parts with commas between them are read one by one. -/
theorem separated_behind
    {α : Type} {part : List Char → α → List Char → Prop} {print : α → List Char} {item : α}
    {items : List α} (bracket : Char)
    (reads : ∀ other ∈ item :: items, layout.Reads part print other) (rest : List Char) :
    Separated part (layout.gap ++ print item ++ layout.behind bracket print items ++ rest)
      (item :: items) (bracket :: rest) := by
  induction items generalizing item with
  | nil =>
      have ending : Blanks (layout.ending ++ bracket :: rest) (bracket :: rest) :=
        blanks_append layout.blankEnding _
      have read := reads item List.mem_cons_self ending
      rw [behind]
      simp only [List.append_assoc, List.cons_append, List.nil_append] at read ⊢
      exact .last read
  | cons next items inductionHypothesis =>
      obtain ⟨first, others⟩ := List.forall_mem_cons.mp reads
      have more := inductionHypothesis others
      rw [behind]
      simp only [Reads, List.append_assoc, List.cons_append] at first more ⊢
      exact .more (first .nil) more

theorem reads_element
    {value : Value} (denotes : ∀ rest, Denotes (write value ++ rest) value rest) :
    layout.Reads Element write value := by
  intro behind rest blanks
  rw [List.append_assoc]
  exact .mk (blanks_append layout.blankGap _) (denotes behind) blanks

theorem reads_member
    {field : String × Value} (denotes : ∀ rest, Denotes (write field.2 ++ rest) field.2 rest) :
    layout.Reads Member (layout.field write) field := by
  intro behind rest blanks
  have element : Element (layout.behindColon ++ (write field.2 ++ behind)) field.2 rest :=
    .mk (blanks_append layout.blankBehindColon _) (denotes behind) blanks
  have name := quoted_quote field.1 (':' :: (layout.behindColon ++ (write field.2 ++ behind)))
  rw [Layout.field]
  simp only [List.append_assoc, List.cons_append]
  exact .mk (blanks_append layout.blankGap _) name .nil element

theorem denotes_list
    {items : List Value}
    (denotes : ∀ item ∈ items, ∀ rest, Denotes (write item ++ rest) item rest) :
    Denotes (layout.print write (.list items) ++ rest) (.list items) rest := by
  cases items with
  | nil => exact .list (.empty .nil)
  | cons item items =>
      have read :=
        layout.separated_behind ']'
          (fun other member => layout.reads_element (denotes other member)) rest
      rw [print]
      exact .list (.parts read)

theorem denotes_record
    {fields : List (String × Value)}
    (denotes : ∀ field ∈ fields, ∀ rest, Denotes (write field.2 ++ rest) field.2 rest) :
    Denotes (layout.print write (.record fields) ++ rest) (.record fields) rest := by
  cases fields with
  | nil => exact .record (.empty .nil)
  | cons field fields =>
      have read :=
        layout.separated_behind '\x7d'
          (fun other member => layout.reads_member (denotes other member)) rest
      rw [print]
      exact .record (.parts read)

end Layout

/-- What prints a value by a layout, at every depth, prints a text that denotes it. -/
theorem denotes_of_print
    {layout : Nat → Layout} {write : Nat → Value → List Char}
    (prints : ∀ depth value,
      write depth value = (layout depth).print (write (depth + 1)) value)
    (depth : Nat) (value : Value) (rest : List Char) :
    Denotes (write depth value ++ rest) value rest := by
  induction value generalizing depth rest with
  | null =>
      rw [prints]
      exact .null
  | bool b =>
      rw [prints]
      cases b with
      | true => exact .yes
      | false => exact .no
  | number value =>
      obtain ⟨numeral, spells, means⟩ := exists_numeral value rest
      rw [prints]
      exact .number spells means
  | text value =>
      rw [prints]
      exact .text (quoted_quote value rest)
  | list items inductionHypothesis =>
      rw [prints]
      exact (layout depth).denotes_list fun item member =>
        inductionHypothesis item member (depth + 1)
  | record fields inductionHypothesis =>
      rw [prints]
      exact (layout depth).denotes_record fun field member =>
        inductionHypothesis field member (depth + 1)

theorem isText_of_denotes
    {chars : List Char} {value : Value}
    (denotes : ∀ rest, Denotes (chars ++ rest) value rest) :
    IsText (String.ofList chars) value := by
  have read := denotes []
  rw [List.append_nil] at read
  rw [IsText, String.toList_ofList]
  exact .mk .nil read .nil

/-- The text of a value without blanks denotes it. -/
theorem isText_compact (value : Value) : IsText value.compact value :=
  isText_of_denotes (denotes_of_print (fun _ => compactChars_eq) 0 value)

/-- The text of a value with one part in each line denotes it. -/
theorem isText_pretty (value : Value) : IsText value.pretty value :=
  isText_of_denotes (denotes_of_print prettyChars_eq 0 value)

theorem compact_inj
    {value value' : Value} :
    value.compact = value'.compact ↔ value = value' := by
  refine ⟨fun same => (isText_compact value).unique ?_, congrArg Value.compact⟩
  rw [same]
  exact isText_compact value'

theorem pretty_inj {value value' : Value} : value.pretty = value'.pretty ↔ value = value' := by
  refine ⟨fun same => (isText_pretty value).unique ?_, congrArg Value.pretty⟩
  rw [same]
  exact isText_pretty value'

end ReviewDiff.Json

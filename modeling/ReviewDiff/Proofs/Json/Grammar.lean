import ReviewDiff.Proofs.Json.Numeral
import ReviewDiff.Proofs.Json.Value

/-!
# The grammar of JSON

Every relation here is between a text, what stands at its front and what is left
behind that.  A number or a run of blanks may stop early.  If what is left cannot go
on with it, then a text can be read in one way only.

* `readOnce_denotes` says so for values.
* `IsText.unique` says that a text denotes at most one value.
-/

namespace ReviewDiff.Json

/-! ## Blanks -/

/-- A character that may stand between the parts of a text. -/
def IsBlank (c : Char) : Prop :=
  c = ' ' ∨ c = '\t' ∨ c = '\n' ∨ c = '\r'

/-- The text begins with blanks. -/
inductive Blanks : List Char → List Char → Prop where
  | nil {rest : List Char} : Blanks rest rest
  | cons {c : Char} {text rest : List Char} (blank : IsBlank c) (more : Blanks text rest) :
      Blanks (c :: text) rest

theorem Blanks.unique
    {text rest rest' : List Char} (blanks : Blanks text rest) (blanks' : Blanks text rest')
    (free : Free IsBlank rest) (free' : Free IsBlank rest') :
    rest = rest' := by
  induction blanks with
  | nil =>
      cases blanks' with
      | nil => rfl
      | cons blank _ => exact absurd blank (free_cons.mp free)
  | cons blank _ inductionHypothesis =>
      cases blanks' with
      | nil => exact absurd blank (free_cons.mp free')
      | cons _ more => exact inductionHypothesis more free

/-- A character that ends a part of a list or a record. -/
def EndsPart (c : Char) : Prop :=
  c = ',' ∨ c = ']' ∨ c = '\x7d'

/-- What is left ends a value: with a blank, or with the part that it is. -/
def Follows (rest : List Char) : Prop :=
  ∀ c ∈ rest.head?, IsBlank c ∨ EndsPart c

/-- What ends a value cannot go on with a number. -/
theorem Follows.free {rest : List Char} (follows : Follows rest) : Free GoesOn rest := by
  intro c first
  rcases follows c first with (rfl | rfl | rfl | rfl) | rfl | rfl | rfl <;>
    rw [GoesOn] <;> decide

/-! ## Texts -/

/-- The character that a backslash with one more character stands for. -/
def shortEscape? : Char → Option Char
  | '"' => some '"'
  | '\\' => some '\\'
  | '/' => some '/'
  | 'b' => some '\x08'
  | 'f' => some '\x0c'
  | 'n' => some '\n'
  | 'r' => some '\r'
  | 't' => some '\t'
  | _ => none

/-- The text begins with four digits in base 16. -/
inductive CodeUnit : List Char → Nat → List Char → Prop where
  | mk {a b c d : Char} {w x y z : Nat} {rest : List Char} (first : Text.hexValue? a = some w)
      (second : Text.hexValue? b = some x) (third : Text.hexValue? c = some y)
      (fourth : Text.hexValue? d = some z) :
      CodeUnit (a :: b :: c :: d :: rest) (((w * 16 + x) * 16 + y) * 16 + z) rest

/-- The text begins with one character as it stands between quotes. -/
inductive Letter : List Char → Char → List Char → Prop where
  | plain {c : Char} {rest : List Char} (printable : 0x20 ≤ c.toNat) (noQuote : c ≠ '"')
      (noBackslash : c ≠ '\\') :
      Letter (c :: rest) c rest
  | short {mark c : Char} {rest : List Char} (listed : shortEscape? mark = some c) :
      Letter ('\\' :: mark :: rest) c rest
  | unit {text rest : List Char} {c : Char} (code : CodeUnit text c.toNat rest) :
      Letter ('\\' :: 'u' :: text) c rest
  | pair {text behind rest : List Char} {high low : Nat} {c : Char}
      (first : CodeUnit text high ('\\' :: 'u' :: behind)) (second : CodeUnit behind low rest)
      (highHalf : 0xD800 ≤ high ∧ high < 0xDC00) (lowHalf : 0xDC00 ≤ low ∧ low < 0xE000)
      (code : c.toNat = 0x10000 + (high - 0xD800) * 0x400 + (low - 0xDC00)) :
      Letter ('\\' :: 'u' :: text) c rest

/-- The text begins with characters and the quote behind them. -/
inductive Letters : List Char → List Char → List Char → Prop where
  | nil {rest : List Char} : Letters ('"' :: rest) [] rest
  | cons {text others chars rest : List Char} {c : Char} (letter : Letter text c others)
      (more : Letters others chars rest) :
      Letters text (c :: chars) rest

/-- The text begins with a text in quotes. -/
inductive Quoted : List Char → String → List Char → Prop where
  | mk {text rest : List Char} {value : String} (letters : Letters text value.toList rest) :
      Quoted ('"' :: text) value rest

theorem CodeUnit.unique
    {text rest rest' : List Char} {n n' : Nat} (read : CodeUnit text n rest)
    (read' : CodeUnit text n' rest') :
    n = n' ∧ rest = rest' := by
  obtain ⟨first, second, third, fourth⟩ := read
  cases read' with
  | mk first' second' third' fourth' =>
      obtain rfl := Option.some.inj (first.symm.trans first')
      obtain rfl := Option.some.inj (second.symm.trans second')
      obtain rfl := Option.some.inj (third.symm.trans third')
      obtain rfl := Option.some.inj (fourth.symm.trans fourth')
      exact ⟨rfl, rfl⟩

/-- No character has the number of a half of a pair. -/
theorem toNat_ne_half (c : Char) {n : Nat} (half : 0xD800 ≤ n ∧ n < 0xE000) : c.toNat ≠ n := by
  rintro rfl
  have valid : c.toNat < 0xD800 ∨ 0xDFFF < c.toNat ∧ c.toNat < 0x110000 := c.valid
  omega

theorem Letter.unique
    {text rest rest' : List Char} {c c' : Char} (read : Letter text c rest)
    (read' : Letter text c' rest') :
    c = c' ∧ rest = rest' := by
  cases read with
  | plain _ _ noBackslash =>
      cases read' with
      | plain _ _ _ => exact ⟨rfl, rfl⟩
      | short _ | unit _ | pair _ _ _ _ _ => exact absurd rfl noBackslash
  | short listed =>
      cases read' with
      | plain _ _ noBackslash => exact absurd rfl noBackslash
      | short listed' => exact ⟨Option.some.inj (listed.symm.trans listed'), rfl⟩
      | unit _ | pair _ _ _ _ _ => cases listed
  | unit code =>
      cases read' with
      | plain _ _ noBackslash => exact absurd rfl noBackslash
      | short listed => cases listed
      | unit code' =>
          obtain ⟨same, rfl⟩ := code.unique code'
          exact ⟨Char.toNat_inj.mp same, rfl⟩
      | pair first _ half _ _ =>
          exact absurd (code.unique first).1 (toNat_ne_half _ ⟨half.1, by omega⟩)
  | pair first second half _ code =>
      cases read' with
      | plain _ _ noBackslash => exact absurd rfl noBackslash
      | short listed => cases listed
      | unit code' =>
          exact absurd (code'.unique first).1 (toNat_ne_half _ ⟨half.1, by omega⟩)
      | pair first' second' _ _ code' =>
          obtain ⟨rfl, ⟨⟩⟩ := first.unique first'
          obtain ⟨rfl, rfl⟩ := second.unique second'
          exact ⟨Char.toNat_inj.mp (code.trans code'.symm), rfl⟩

theorem Letter.not_quote
    {rest rest' : List Char} {c : Char} :
    ¬ Letter ('"' :: rest) c rest' := by
  rintro ⟨⟩
  rename_i noQuote _
  exact noQuote rfl

theorem Letters.unique
    {text chars chars' rest rest' : List Char} (read : Letters text chars rest)
    (read' : Letters text chars' rest') :
    chars = chars' ∧ rest = rest' := by
  induction read generalizing chars' with
  | nil =>
      cases read' with
      | nil => exact ⟨rfl, rfl⟩
      | cons letter _ => exact absurd letter Letter.not_quote
  | cons letter _ inductionHypothesis =>
      cases read' with
      | nil => exact absurd letter Letter.not_quote
      | cons letter' more =>
          obtain ⟨rfl, rfl⟩ := letter.unique letter'
          obtain ⟨rfl, rfl⟩ := inductionHypothesis more
          exact ⟨rfl, rfl⟩

theorem Quoted.unique
    {text rest rest' : List Char} {value value' : String} (read : Quoted text value rest)
    (read' : Quoted text value' rest') :
    value = value' ∧ rest = rest' := by
  obtain ⟨letters⟩ := read
  cases read' with
  | mk letters' =>
      obtain ⟨same, rfl⟩ := letters.unique letters'
      exact ⟨String.toList_inj.mp same, rfl⟩

theorem Quoted.free
    {text rest : List Char} {value : String} (read : Quoted text value rest) :
    Free (fun c => IsBlank c ∨ EndsPart c) text := by
  cases read
  rw [free_cons, IsBlank, EndsPart]
  decide

/-! ## Values -/

/-- The text begins with one or more parts of some kind with commas between them. -/
inductive Separated {α : Type} (part : List Char → α → List Char → Prop) :
    List Char → List α → List Char → Prop where
  | last {text rest : List Char} {item : α} (read : part text item rest) :
      Separated part text [item] rest
  | more {text others rest : List Char} {item : α} {items : List α}
      (read : part text item (',' :: others)) (more : Separated part others items rest) :
      Separated part text (item :: items) rest

/-- The text begins with parts of some kind, or none, and the closing bracket. -/
inductive Closed {α : Type} (part : List Char → α → List Char → Prop) (bracket : Char) :
    List α → List Char → List Char → Prop where
  | empty {text rest : List Char} (blanks : Blanks text (bracket :: rest)) :
      Closed part bracket [] text rest
  | parts {text rest : List Char} {items : List α}
      (read : Separated part text items (bracket :: rest)) :
      Closed part bracket items text rest

mutual

/-- The text begins with a value. -/
inductive Denotes : List Char → Value → List Char → Prop where
  | null {rest : List Char} : Denotes ('n' :: 'u' :: 'l' :: 'l' :: rest) .null rest
  | yes {rest : List Char} : Denotes ('t' :: 'r' :: 'u' :: 'e' :: rest) (.bool true) rest
  | no {rest : List Char} :
      Denotes ('f' :: 'a' :: 'l' :: 's' :: 'e' :: rest) (.bool false) rest
  | number {text rest : List Char} {numeral : Numeral} {value : Number}
      (spells : Spells text numeral rest) (means : numeral.Means value) :
      Denotes text (.number value) rest
  | text {text rest : List Char} {value : String} (read : Quoted text value rest) :
      Denotes text (.text value) rest
  | list
      {text rest : List Char} {items : List Value}
      (read : Closed Element ']' items text rest) :
      Denotes ('[' :: text) (.list items) rest
  | record {text rest : List Char} {fields : List (String × Value)}
      (read : Closed Member '\x7d' fields text rest) :
      Denotes ('\x7b' :: text) (.record fields) rest

/-- The text begins with a value between blanks. -/
inductive Element : List Char → Value → List Char → Prop where
  | mk {text inner behind rest : List Char} {value : Value} (before : Blanks text inner)
      (read : Denotes inner value behind) (after : Blanks behind rest) :
      Element text value rest

/-- The text begins with a key and its value. -/
inductive Member : List Char → String × Value → List Char → Prop where
  | mk {text inner behind others rest : List Char} {key : String} {value : Value}
      (before : Blanks text inner) (name : Quoted inner key behind)
      (after : Blanks behind (':' :: others)) (read : Element others value rest) :
      Member text (key, value) rest

end

/-- The whole text is a value between blanks. -/
def IsText (text : String) (value : Value) : Prop :=
  Element text.toList value []

/-! ## One reading only -/

/-- Where this can be read, nothing else can be read if what is left is such. -/
def ReadOnce
    {α : Type} (part : List Char → α → List Char → Prop) (left : List Char → Prop) (item : α) :
    Prop :=
  ∀ ⦃text rest rest' : List Char⦄ ⦃item' : α⦄, part text item rest → part text item' rest' →
    left rest → left rest' → item = item' ∧ rest = rest'

/-- What is left ends a part of a list or a record, or the text. -/
def Closes (rest : List Char) : Prop :=
  ∀ c ∈ rest.head?, EndsPart c

section Parts

variable {text rest rest' : List Char}

theorem Closes.free (closes : Closes rest) : Free IsBlank rest := by
  intro c first
  rcases closes c first with rfl | rfl | rfl <;> rw [IsBlank] <;> decide

theorem closes_cons {c : Char} (ends : EndsPart c) : Closes (c :: rest) := by
  rintro _ ⟨⟩
  exact ends

theorem Blanks.follows (blanks : Blanks text rest) (closes : Closes rest) : Follows text := by
  cases blanks with
  | nil => exact fun c first => .inr (closes c first)
  | cons blank _ =>
      rintro _ ⟨⟩
      exact .inl blank

/-- A value does not begin with what may stand before or behind it. -/
theorem Denotes.free
    {value : Value} (read : Denotes text value rest) :
    Free (fun c => IsBlank c ∨ EndsPart c) text := by
  cases read with
  | number spells _ =>
      obtain ⟨c, more, rfl, first⟩ := spells.exists_head
      rw [free_cons]
      rintro ((rfl | rfl | rfl | rfl) | rfl | rfl | rfl) <;> revert first <;> decide
  | text read => exact read.free
  | null | yes | no | list _ | record _ =>
      rw [free_cons, IsBlank, EndsPart]
      decide

theorem readOnce_element {value : Value} (once : ReadOnce Denotes Follows value) :
    ReadOnce Element Closes value := by
  intro text rest rest' value' read read' closes closes'
  obtain ⟨before, inner, after⟩ := read
  obtain ⟨before', inner', after'⟩ := read'
  obtain rfl := before.unique before' (inner.free.mono .inl) (inner'.free.mono .inl)
  obtain ⟨rfl, rfl⟩ := once inner inner' (after.follows closes) (after'.follows closes')
  exact ⟨rfl, after.unique after' closes.free closes'.free⟩

theorem readOnce_member
    {field : String × Value} (once : ReadOnce Denotes Follows field.2) :
    ReadOnce Member Closes field := by
  intro text rest rest' field' read read' closes closes'
  have colonFree : ∀ {rest : List Char}, Free IsBlank (':' :: rest) := by
    intro rest
    rw [free_cons, IsBlank]
    decide
  obtain ⟨before, name, after, inner⟩ := read
  obtain ⟨before', name', after', inner'⟩ := read'
  obtain rfl := before.unique before' (name.free.mono .inl) (name'.free.mono .inl)
  obtain ⟨rfl, rfl⟩ := name.unique name'
  obtain ⟨⟩ := after.unique after' colonFree colonFree
  obtain ⟨rfl, rfl⟩ := readOnce_element once inner inner' closes closes'
  exact ⟨rfl, rfl⟩

/-- Where a bracket closes behind blanks, there is nothing to read. -/
theorem not_blanks_of_free
    {c : Char} {inner : List Char} (ends : EndsPart c) (blanks : Blanks text inner)
    (free : Free (fun c => IsBlank c ∨ EndsPart c) inner) :
    ¬ Blanks text (c :: rest) := by
  intro closing
  obtain rfl := closing.unique blanks (closes_cons ends).free (free.mono .inl)
  exact free_cons.mp free (.inr ends)

theorem Element.not_blanks
    {c : Char} {value : Value} (read : Element text value rest) (ends : EndsPart c) :
    ¬ Blanks text (c :: rest') := by
  obtain ⟨before, inner, -⟩ := read
  exact not_blanks_of_free ends before inner.free

theorem Member.not_blanks
    {c : Char} {field : String × Value} (read : Member text field rest) (ends : EndsPart c) :
    ¬ Blanks text (c :: rest') := by
  obtain ⟨before, name, -, -⟩ := read
  exact not_blanks_of_free ends before name.free

section Lists

variable {α : Type} {part : List Char → α → List Char → Prop} {items items' : List α}
  {bracket : Char}

theorem Separated.exists_first (read : Separated part text items rest) :
    ∃ item behind, part text item behind := by
  cases read with
  | last read | more read _ => exact ⟨_, _, read⟩

theorem Separated.unique
    (ends : EndsPart bracket) (noComma : bracket ≠ ',')
    (once : ∀ item ∈ items, ReadOnce part Closes item)
    (read : Separated part text items (bracket :: rest))
    (read' : Separated part text items' (bracket :: rest')) :
    items = items' ∧ rest = rest' := by
  have comma : ∀ {rest : List Char}, Closes (',' :: rest) := closes_cons (.inl rfl)
  have ending : ∀ {rest : List Char}, Closes (bracket :: rest) := closes_cons ends
  induction items generalizing text items' with
  | nil => cases read
  | cons item items inductionHypothesis =>
      obtain ⟨first, others⟩ := List.forall_mem_cons.mp once
      cases read with
      | last read =>
          cases read' with
          | last read' =>
              obtain ⟨rfl, ⟨⟩⟩ := first read read' ending ending
              exact ⟨rfl, rfl⟩
          | more read' _ =>
              exact absurd (List.cons.inj (first read read' ending comma).2).1 noComma
      | more read more =>
          cases read' with
          | last read' =>
              exact absurd (List.cons.inj (first read read' comma ending).2).1.symm noComma
          | more read' more' =>
              obtain ⟨rfl, ⟨⟩⟩ := first read read' comma comma
              obtain ⟨rfl, rfl⟩ := inductionHypothesis others more more'
              exact ⟨rfl, rfl⟩

theorem Closed.unique
    (ends : EndsPart bracket) (noComma : bracket ≠ ',')
    (once : ∀ item ∈ items, ReadOnce part Closes item)
    (starts : ∀ {text rest rest' : List Char} {item : α}, part text item rest →
      ¬ Blanks text (bracket :: rest'))
    (read : Closed part bracket items text rest)
    (read' : Closed part bracket items' text rest') :
    items = items' ∧ rest = rest' := by
  have free : ∀ {rest : List Char}, Free IsBlank (bracket :: rest) := (closes_cons ends).free
  cases read with
  | empty blanks =>
      cases read' with
      | empty blanks' =>
          obtain ⟨⟩ := blanks.unique blanks' free free
          exact ⟨rfl, rfl⟩
      | parts read' =>
          obtain ⟨_, _, first⟩ := read'.exists_first
          exact absurd blanks (starts first)
  | parts read =>
      cases read' with
      | empty blanks =>
          obtain ⟨_, _, first⟩ := read.exists_first
          exact absurd blanks (starts first)
      | parts read' => exact read.unique ends noComma once read'

end Lists

theorem readOnce_null : ReadOnce Denotes Follows .null := by
  intro text rest rest' value' read read' _ _
  cases read
  cases read' with
  | null => exact ⟨rfl, rfl⟩
  | number spells _ => exact absurd spells (Spells.not_cons (by decide))
  | text read' => cases read'

theorem readOnce_bool (b : Bool) : ReadOnce Denotes Follows (.bool b) := by
  intro text rest rest' value' read read' _ _
  cases read with
  | yes =>
      cases read' with
      | yes => exact ⟨rfl, rfl⟩
      | number spells _ => exact absurd spells (Spells.not_cons (by decide))
      | text read' => cases read'
  | no =>
      cases read' with
      | no => exact ⟨rfl, rfl⟩
      | number spells _ => exact absurd spells (Spells.not_cons (by decide))
      | text read' => cases read'

theorem readOnce_number (value : Number) : ReadOnce Denotes Follows (.number value) := by
  intro text rest rest' value' read read' follows follows'
  cases read with
  | number spells means =>
      cases read' with
      | number spells' means' =>
          obtain ⟨rfl, rfl⟩ := spells.unique spells' follows.free follows'.free
          rw [means.unique means']
          exact ⟨rfl, rfl⟩
      | text read' =>
          cases read'
          exact absurd spells (Spells.not_cons (by decide))
      | null | yes | no | list _ | record _ =>
          exact absurd spells (Spells.not_cons (by decide))

theorem readOnce_text (value : String) : ReadOnce Denotes Follows (.text value) := by
  intro text rest rest' value' read read' _ _
  cases read with
  | text read =>
      cases read' with
      | text read' =>
          obtain ⟨rfl, rfl⟩ := read.unique read'
          exact ⟨rfl, rfl⟩
      | number spells _ =>
          cases read
          exact absurd spells (Spells.not_cons (by decide))
      | null | yes | no | list _ | record _ => cases read

theorem readOnce_list
    {items : List Value} (once : ∀ item ∈ items, ReadOnce Denotes Follows item) :
    ReadOnce Denotes Follows (.list items) := by
  intro text rest rest' value' read read' _ _
  have ends : EndsPart ']' := .inr (.inl rfl)
  cases read with
  | list read =>
      cases read' with
      | list read' =>
          obtain ⟨rfl, rfl⟩ :=
            read.unique ends (by decide)
              (fun item member => readOnce_element (once item member))
              (fun inner => inner.not_blanks ends) read'
          exact ⟨rfl, rfl⟩
      | number spells _ => exact absurd spells (Spells.not_cons (by decide))
      | text read' => cases read'

theorem readOnce_record
    {fields : List (String × Value)}
    (once : ∀ field ∈ fields, ReadOnce Denotes Follows field.2) :
    ReadOnce Denotes Follows (.record fields) := by
  intro text rest rest' value' read read' _ _
  have ends : EndsPart '\x7d' := .inr (.inr rfl)
  cases read with
  | record read =>
      cases read' with
      | record read' =>
          obtain ⟨rfl, rfl⟩ :=
            read.unique ends (by decide)
              (fun field member => readOnce_member (once field member))
              (fun inner => inner.not_blanks ends) read'
          exact ⟨rfl, rfl⟩
      | number spells _ => exact absurd spells (Spells.not_cons (by decide))
      | text read' => cases read'

/-- A value is read in one way only if something follows that ends it. -/
theorem readOnce_denotes (value : Value) : ReadOnce Denotes Follows value := by
  induction value with
  | null => exact readOnce_null
  | bool b => exact readOnce_bool b
  | number value => exact readOnce_number value
  | text value => exact readOnce_text value
  | list items inductionHypothesis => exact readOnce_list inductionHypothesis
  | record fields inductionHypothesis => exact readOnce_record inductionHypothesis

end Parts

/-- A text denotes at most one value. -/
theorem IsText.unique
    {text : String} {value value' : Value} (isText : IsText text value)
    (isText' : IsText text value') :
    value = value' := by
  have ending : Closes [] := by
    intro c first
    cases first
  exact (readOnce_element (readOnce_denotes value) isText isText' ending ending).1

end ReviewDiff.Json

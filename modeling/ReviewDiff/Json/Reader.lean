import ReviewDiff.Json.Value
import ReviewDiff.Text.Number
import ReviewDiff.Text.Position

/-!
# Reading JSON texts

`Value.read` reads a text that holds one value, with blanks around it.  Of two
fields with the same key the later one counts.  Values may lie in at most
`depthLimit` others, and a number has to be in the range of a double.

Every reader takes the characters that are left and gives back those behind what
it read.  A mistake remembers what was left, so that its place in the text can be
told.
-/

namespace ReviewDiff.Json

open Decimal (Magnitude)

/-- A place where reading cannot go on, by the characters from there on and the
number of bytes of them that count as read. -/
structure Mistake where
  rest : List Char
  ahead : Nat
  deriving DecidableEq, Repr

/-- The next character is wrong, or is missing. -/
def unexpected {α : Type} (rest : List Char) : Except Mistake α :=
  .error ⟨rest, 1⟩

/-- What was just read is wrong. -/
def refused {α : Type} (rest : List Char) : Except Mistake α :=
  .error ⟨rest, 0⟩

/-- How many bytes of a text count as read at a mistake. -/
def Mistake.index (mistake : Mistake) (text : String) : Nat :=
  min (Text.byteLength text.toList)
    (Text.byteLength text.toList - Text.byteLength mistake.rest + mistake.ahead)

def isSpace (c : Char) : Bool :=
  c = ' ' || c = '\t' || c = '\n' || c = '\r'

def skipSpace (text : List Char) : List Char :=
  text.dropWhile isSpace

def readWord : List Char → List Char → Except Mistake (List Char)
  | [], text => .ok text
  | expected :: word, c :: text =>
      if c = expected then readWord word text else unexpected (c :: text)
  | _ :: _, [] => unexpected []

/-! ## Numbers -/

/-- The greatest power of ten by which a double is multiplied or divided at once.
-/
def maxPower : Nat := 308

/-- The double divided by a power of ten, in steps that are rounded one by one. -/
def dividedBy? (value : Magnitude) (power : Nat) : Option Magnitude := do
  if value = .zero then some value
  else if power ≤ maxPower then value.quotient? (← Magnitude.powerOfTen? power)
  else dividedBy? (← value.quotient? (← Magnitude.powerOfTen? maxPower)) (power - maxPower)
termination_by power
decreasing_by simp only [maxPower] at *; omega

/-- The double that is read for `significand · 10 ^ exponent`; missing when that
is infinite.  The significand is rounded before it is multiplied or divided, so
the result need not be the nearest double. -/
def magnitude? (significand : Nat) (exponent : Int) : Option Magnitude := do
  let value ← Decimal.nearest? significand 1
  if exponent < 0 then dividedBy? value (-exponent).toNat
  else if value = .zero then some value
  else if exponent ≤ maxPower then value.product? (← Magnitude.powerOfTen? exponent.toNat)
  else none

/-- Digits put behind a significand as long as it fits 64 bits, and the number of
digits that do not get in. -/
def absorb (significand : Nat) : List Char → Nat × Nat
  | [] => (significand, 0)
  | digit :: rest =>
      let larger := significand * 10 + Text.digitValue digit
      if larger ≤ Text.max64 then absorb larger rest else (significand, rest.length + 1)

def maxExponent : Nat := UInt32.size / 2 - 1

/-- The digits of an exponent, up to the one that makes it too large, and whether
there is such a digit. -/
def exponentDigits (value : Nat) : List Char → Nat × Bool × List Char
  | [] => (value, false, [])
  | c :: rest =>
      if c.isDigit then
        let larger := value * 10 + Text.digitValue c
        if larger ≤ maxExponent then exponentDigits larger rest else (value, true, rest)
      else (value, false, c :: rest)

/-- A whole number, unless it does not fit 64 bits or is a negative zero. -/
def integer? (negative : Bool) (digits : List Char) : Option Number :=
  let size := Text.decimalValue digits
  let opposite := Int64.ofInt (-size)
  if Text.max64 < size then none
  else if !negative then some (.unsigned (UInt64.ofNat size))
  else if below : opposite < 0 then some (.negative opposite below)
  else none

/-- The double with the given digits before and behind the point.  Digits that do
not fit 64 bits count as zeros. -/
def double? (negative : Bool) (whole fraction : List Char) (power : Int) : Option Number :=
  let (front, left) := absorb 0 whole
  let (significand, rest) := absorb front fraction
  let exponent := power + left + rest - fraction.length
  (magnitude? significand exponent).map fun magnitude => .double ⟨negative, magnitude⟩

def number?
    (negative : Bool) (whole fraction : List Char) (power : Option Int) : Option Number :=
  let integer := if fraction.isEmpty && power.isNone then integer? negative whole else none
  integer <|> double? negative whole fraction (power.getD 0)

/-- Reads the digits before the point: a zero, or digits that do not start with
one. -/
def readWhole (text : List Char) : Except Mistake (List Char × List Char) :=
  match text with
  | '0' :: rest =>
      if (rest.head?.map Char.isDigit).getD false then unexpected rest else .ok (['0'], rest)
  | c :: rest => if c.isDigit then .ok ((c :: rest).span Char.isDigit) else unexpected text
  | [] => unexpected []

def readFraction (text : List Char) : Except Mistake (List Char × List Char) :=
  match text with
  | '.' :: rest =>
      let (digits, rest) := rest.span Char.isDigit
      if digits.isEmpty then unexpected rest else .ok (digits, rest)
  | _ => .ok ([], text)

def readSign : List Char → Bool × List Char
  | '+' :: rest => (false, rest)
  | '-' :: rest => (true, rest)
  | rest => (false, rest)

/-- Reads an exponent, if there is one.  One that is too large is as good as the
least one if the digits before it are all zero or if it is negative. -/
def readExponent (isZero : Bool) (text : List Char) :
    Except Mistake (Option Int × List Char) :=
  match text with
  | [] => .ok (none, [])
  | c :: rest =>
      if c = 'e' || c = 'E' then
        let (negative, digits) := readSign rest
        if (digits.head?.map Char.isDigit).getD false then
          match exponentDigits 0 digits with
          | (value, false, rest) =>
              .ok (some (if negative then -(value : Int) else value), rest)
          | (_, true, rest) =>
              if isZero || negative then .ok (some (-maxExponent), rest.dropWhile Char.isDigit)
              else refused rest
        else unexpected digits
      else .ok (none, text)

def readNumber (negative : Bool) (text : List Char) : Except Mistake (Value × List Char) := do
  let (whole, rest) ← readWhole text
  let (fraction, rest) ← readFraction rest
  let isZero := (whole ++ fraction).all (· = '0')
  let (power, rest) ← readExponent isZero rest
  match number? negative whole fraction power with
  | some number => .ok (.number number, rest)
  | none => refused rest

/-! ## Texts -/

def readHex (text : List Char) : Except Mistake (Nat × List Char) :=
  match text with
  | a :: b :: c :: d :: rest =>
      match [a, b, c, d].mapM Text.hexValue? with
      | some digits => .ok (digits.foldl (fun value digit => value * 16 + digit) 0, rest)
      | none => .error ⟨text, 4⟩
  | _ => .error ⟨text, 4⟩

/-- Whether a code unit is the first half of a pair. -/
def isHigh (unit : Nat) : Bool := 0xD800 ≤ unit && unit ≤ 0xDBFF

def isLow (unit : Nat) : Bool := 0xDC00 ≤ unit && unit ≤ 0xDFFF

/-- Reads a character given by one code unit of four digits, or by a pair of them.
-/
def readUnits (text : List Char) : Except Mistake (Char × List Char) := do
  let (unit, rest) ← readHex text
  if isLow unit then refused rest
  else if isHigh unit then
    let rest ← readWord ['\\', 'u'] rest
    let (second, rest) ← readHex rest
    if isLow second then
      .ok (Char.ofNat ((unit - 0xD800) * 1024 + (second - 0xDC00) + 0x10000), rest)
    else refused rest
  else .ok (Char.ofNat unit, rest)

def readEscape (text : List Char) : Except Mistake (Char × List Char) :=
  match text with
  | '"' :: rest => .ok ('"', rest)
  | '\\' :: rest => .ok ('\\', rest)
  | '/' :: rest => .ok ('/', rest)
  | 'b' :: rest => .ok ('\x08', rest)
  | 'f' :: rest => .ok ('\x0c', rest)
  | 'n' :: rest => .ok ('\n', rest)
  | 'r' :: rest => .ok ('\r', rest)
  | 't' :: rest => .ok ('\t', rest)
  | 'u' :: rest => readUnits rest
  | _ => unexpected text

/-- Reads the characters of a text up to its closing quote; at most `fuel` of
them. -/
def readChars : (fuel : Nat) → List Char → Except Mistake (List Char × List Char)
  | 0, text => unexpected text
  | fuel + 1, text =>
      match text with
      | [] => unexpected []
      | '"' :: rest => .ok ([], rest)
      | '\\' :: rest => do
          let (c, rest) ← readEscape rest
          let (others, rest) ← readChars fuel rest
          .ok (c :: others, rest)
      | c :: rest =>
          if c.toNat < 32 then unexpected text
          else do
            let (others, rest) ← readChars fuel rest
            .ok (c :: others, rest)

def readText (text : List Char) : Except Mistake (String × List Char) := do
  let (chars, rest) ← readChars (text.length + 1) text
  .ok (String.ofList chars, rest)

/-! ## Lists and records -/

/-- Reads what follows an item of a list; at most `fuel` further items. -/
def readItems (readItem : List Char → Except Mistake (Value × List Char)) :
    (fuel : Nat) → List Char → Except Mistake (List Value × List Char)
  | 0, text => unexpected text
  | fuel + 1, text =>
      match skipSpace text with
      | ']' :: rest => .ok ([], rest)
      | ',' :: rest =>
          match skipSpace rest with
          | ']' :: _ => unexpected (skipSpace rest)
          | _ => do
              let (item, rest) ← readItem rest
              let (items, rest) ← readItems readItem fuel rest
              .ok (item :: items, rest)
      | rest => unexpected rest

def readList (readItem : List Char → Except Mistake (Value × List Char)) (text : List Char) :
    Except Mistake (Value × List Char) :=
  match skipSpace text with
  | ']' :: rest => .ok (.list [], rest)
  | [] => unexpected []
  | rest => do
      let (item, rest) ← readItem rest
      let (items, rest) ← readItems readItem (rest.length + 1) rest
      .ok (.list (item :: items), rest)

def readField (readItem : List Char → Except Mistake (Value × List Char)) (text : List Char) :
    Except Mistake ((String × Value) × List Char) :=
  match skipSpace text with
  | '"' :: rest => do
      let (key, rest) ← readText rest
      match skipSpace rest with
      | ':' :: rest =>
          let (value, rest) ← readItem rest
          .ok ((key, value), rest)
      | rest => unexpected rest
  | rest => unexpected rest

/-- Reads what follows a field of a record, given the fields so far; at most
`fuel` further fields. -/
def readFields
    (readItem : List Char → Except Mistake (Value × List Char))
    (fields : List (String × Value)) :
    (fuel : Nat) → List Char → Except Mistake (List (String × Value) × List Char)
  | 0, text => unexpected text
  | fuel + 1, text =>
      match skipSpace text with
      | '\x7d' :: rest => .ok (fields, rest)
      | ',' :: rest => do
          let ((key, value), rest) ← readField readItem rest
          readFields readItem (putField key value fields) fuel rest
      | rest => unexpected rest

def readRecord (readItem : List Char → Except Mistake (Value × List Char)) (text : List Char) :
    Except Mistake (Value × List Char) :=
  match skipSpace text with
  | '\x7d' :: rest => .ok (.record [], rest)
  | rest => do
      let (field, rest) ← readField readItem rest
      let (fields, rest) ← readFields readItem [field] (rest.length + 1) rest
      .ok (.record fields, rest)

/-! ## Values -/

/-- Reads a value that lies in others, given how many more may lie in each other.
-/
def readValue : (depth : Nat) → List Char → Except Mistake (Value × List Char)
  | depth, text =>
      match skipSpace text with
      | 'n' :: rest => do .ok (.null, ← readWord "ull".toList rest)
      | 't' :: rest => do .ok (.bool true, ← readWord "rue".toList rest)
      | 'f' :: rest => do .ok (.bool false, ← readWord "alse".toList rest)
      | '"' :: rest => do
          let (value, rest) ← readText rest
          .ok (.text value, rest)
      | '-' :: rest => readNumber true rest
      | c :: rest =>
          if c.isDigit then readNumber false (c :: rest)
          else
            match depth with
            | 0 => unexpected (c :: rest)
            | depth + 1 =>
                if c = '[' then readList (readValue depth) rest
                else if c = '\x7b' then readRecord (readValue depth) rest
                else unexpected (c :: rest)
      | [] => unexpected []

def depthLimit : Nat := 127

def Value.read (text : String) : Except Mistake Value := do
  let (value, rest) ← readValue depthLimit text.toList
  match skipSpace rest with
  | [] => .ok value
  | rest => unexpected rest

end ReviewDiff.Json

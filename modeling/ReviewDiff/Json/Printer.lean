import ReviewDiff.Decimal.Shortest
import ReviewDiff.Json.Value
import ReviewDiff.Text.Number

/-!
# JSON texts

`Value.compact` writes a value without blanks and `Value.pretty` with one field or
item per line.  In a text only the quote, the backslash and the control characters
below U+0020 are escaped.
-/

namespace ReviewDiff.Json

def escapeChar (c : Char) : List Char :=
  match c with
  | '"' => ['\\', '"']
  | '\\' => ['\\', '\\']
  | '\x08' => ['\\', 'b']
  | '\t' => ['\\', 't']
  | '\n' => ['\\', 'n']
  | '\x0c' => ['\\', 'f']
  | '\r' => ['\\', 'r']
  | c => if c.toNat < 32 then ['\\', 'u'] ++ Text.hexDigits 4 c.toNat else [c]

def quote (text : String) : List Char :=
  '"' :: text.toList.flatMap escapeChar ++ ['"']

/-! ## Numbers -/

/-- Digits with a point behind the first one, and the power of ten. -/
def scientific (digits : List Char) (exponent : Int) : List Char :=
  let power := 'e' :: (toString exponent).toList
  match digits with
  | first :: second :: rest => first :: '.' :: second :: rest ++ power
  | digits => digits ++ power

/-- A decimal of middling size is written without a power of ten. -/
def decimalText (mantissa : Nat) (exponent : Int) : List Char :=
  let digits := Nat.toDigits 10 mantissa
  let size : Int := digits.length + exponent
  if -5 < size && size ≤ 16 then Decimal.positional mantissa exponent
  else scientific digits (size - 1)

/-- The shortest text that reads back as the double.  Of two shortest decimals the
even one is taken. -/
def doubleText (value : Decimal.Double) : List Char :=
  let (mantissa, exponent) := Decimal.shortest (fun below => below % 2 = 1) value.magnitude
  if value.negative then '-' :: decimalText mantissa exponent
  else decimalText mantissa exponent

def numberText : Number → List Char
  | .unsigned value => (toString value.toNat).toList
  | .negative value _ => (toString value.toInt).toList
  | .double value => doubleText value

/-! ## Without blanks -/

mutual

def compactChars : Value → List Char
  | .null => "null".toList
  | .bool true => "true".toList
  | .bool false => "false".toList
  | .number value => numberText value
  | .text value => quote value
  | .list [] => ['[', ']']
  | .list (item :: rest) => '[' :: compactChars item ++ compactItems rest
  | .record [] => ['\x7b', '\x7d']
  | .record ((key, value) :: rest) =>
      '\x7b' :: quote key ++ ':' :: compactChars value ++ compactFields rest

/-- The remaining items of a list and its end. -/
def compactItems : List Value → List Char
  | [] => [']']
  | item :: rest => ',' :: compactChars item ++ compactItems rest

def compactFields : List (String × Value) → List Char
  | [] => ['\x7d']
  | (key, value) :: rest => ',' :: quote key ++ ':' :: compactChars value ++ compactFields rest

end

/-! ## With one item per line -/

def newLine (depth : Nat) : List Char :=
  '\n' :: List.replicate (2 * depth) ' '

mutual

/-- The text of a value inside `depth` others, with one item per line. -/
def prettyChars (depth : Nat) : Value → List Char
  | .null => "null".toList
  | .bool true => "true".toList
  | .bool false => "false".toList
  | .number value => numberText value
  | .text value => quote value
  | .list [] => ['[', ']']
  | .list (item :: rest) =>
      '[' :: newLine (depth + 1) ++ prettyChars (depth + 1) item ++ prettyItems depth rest
  | .record [] => ['\x7b', '\x7d']
  | .record ((key, value) :: rest) =>
      '\x7b' :: newLine (depth + 1) ++ quote key ++
        ':' :: ' ' :: prettyChars (depth + 1) value ++
        prettyFields depth rest

def prettyItems (depth : Nat) : List Value → List Char
  | [] => newLine depth ++ [']']
  | item :: rest =>
      ',' :: newLine (depth + 1) ++ prettyChars (depth + 1) item ++ prettyItems depth rest

def prettyFields (depth : Nat) : List (String × Value) → List Char
  | [] => newLine depth ++ ['\x7d']
  | (key, value) :: rest =>
      ',' :: newLine (depth + 1) ++ quote key ++ ':' :: ' ' :: prettyChars (depth + 1) value ++
        prettyFields depth rest

end

def Value.compact (value : Value) : String :=
  String.ofList (compactChars value)

/-- A value as text with one field or item per line. -/
def Value.pretty (value : Value) : String :=
  String.ofList (prettyChars 0 value)

end ReviewDiff.Json

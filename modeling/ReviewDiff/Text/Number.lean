/-!
# Unsigned numbers in texts

A decimal number is one or more ASCII digits, possibly after one plus sign.
Leading zeros are allowed; a value above the given bound is refused.
-/

namespace ReviewDiff.Text

def digitValue (c : Char) : Nat :=
  c.toNat - '0'.toNat

def decimalValue (digits : List Char) : Nat :=
  digits.foldl (fun value c => value * 10 + digitValue c) 0

/-- The number spelled by a nonempty list of digits, if it is at most `bound`. -/
def readDigits? (bound : Nat) (digits : List Char) : Option Nat :=
  if digits.isEmpty || !digits.all Char.isDigit then none
  else if decimalValue digits ≤ bound then some (decimalValue digits)
  else none

def readNat? (bound : Nat) (text : String) : Option Nat :=
  match text.toList with
  | '+' :: digits => readDigits? bound digits
  | digits => readDigits? bound digits

def max64 : Nat := UInt64.size - 1

def max32 : Nat := UInt32.size - 1

/-- A 64-bit number that a text spells. -/
def readNat64? (text : String) : Option Nat :=
  readNat? max64 text

/-- The decimal digits of a number, with at least the given count. -/
def paddedDecimal (width n : Nat) : String :=
  let digits := Nat.toDigits 10 n
  String.ofList (List.replicate (width - digits.length) '0' ++ digits)

/-! ## Base 16 -/

def hexValue? (c : Char) : Option Nat :=
  if c.isDigit then some (c.toNat - '0'.toNat)
  else if 'a' ≤ c && c ≤ 'f' then some (c.toNat - 'a'.toNat + 10)
  else if 'A' ≤ c && c ≤ 'F' then some (c.toNat - 'A'.toNat + 10)
  else none

/-- The digits of a number in base 16, with at least the given count, in lower
case. -/
def hexDigits (width n : Nat) : List Char :=
  let digits := Nat.toDigits 16 n
  List.replicate (width - digits.length) '0' ++ digits

end ReviewDiff.Text

import ReviewDiff.Toml.Quoted

/-!
# Numbers, dates and times in a TOML document

Between the digits of a number single underscores may stand.  A date or time is
recognised by its first characters: four digits and a hyphen, or two digits and a
colon.
-/

namespace ReviewDiff.Toml

/-! ## Digits -/

/-- Reads further digits of a number, each after at most one underscore. -/
def moreDigits (accepts : Char → Bool) : List Char → Except Place (List Char × List Char)
  | [] => .ok ([], [])
  | '_' :: rest =>
      match rest with
      | c :: after =>
          if accepts c then do
            let (digits, rest) ← moreDigits accepts after
            .ok (c :: digits, rest)
          else stuck rest
      | [] => stuck []
  | c :: rest =>
      if accepts c then do
        let (digits, rest) ← moreDigits accepts rest
        .ok (c :: digits, rest)
      else .ok ([], c :: rest)

def someDigits (accepts : Char → Bool) (text : List Char) :
    Except Place (List Char × List Char) :=
  match text with
  | c :: rest =>
      if accepts c then do
        let (digits, rest) ← moreDigits accepts rest
        .ok (c :: digits, rest)
      else stuck text
  | [] => stuck []

/-- Reads the digits of a decimal number, which has no leading zeros. -/
def wholeDigits (text : List Char) : Except Place (List Char × List Char) :=
  match text with
  | '0' :: rest => .ok (['0'], rest)
  | _ => someDigits Char.isDigit text

def readSign : List Char → Bool × List Char
  | '+' :: rest => (false, rest)
  | '-' :: rest => (true, rest)
  | text => (false, text)

def valueIn (base : Nat) (digits : List Char) : Nat :=
  digits.foldl (fun value c => value * base + (Text.hexValue? c).getD 0) 0

/-! ## Numbers -/

/-- The whole number with a sign, if it fits 64 bits. -/
def integer? (negative : Bool) (magnitude : Nat) : Option Scalar :=
  if negative then if magnitude ≤ UInt64.size / 2 then some (.integer (-magnitude)) else none
  else if magnitude < UInt64.size / 2 then some (.integer magnitude)
  else none

def readInBase (base : Nat) (text : List Char) : Except Place (Scalar × List Char) := do
  let (digits, rest) ← someDigits (fun c => (Text.hexValue? c).any (· < base)) text
  match integer? false (valueIn base digits) with
  | some value => .ok (value, rest)
  | none => stuck text

def readExponent (text : List Char) : Except Place (Int × List Char) := do
  let (negative, rest) := readSign text
  let (digits, rest) ← someDigits Char.isDigit rest
  let size : Int := valueIn 10 digits
  .ok (if negative then -size else size, rest)

def readExponent? (text : List Char) : Except Place (Option Int × List Char) :=
  match text with
  | 'e' :: rest | 'E' :: rest => do
      let (exponent, rest) ← readExponent rest
      .ok (some exponent, rest)
  | _ => .ok (none, text)

/-- The floating point number with the given digits.  A positive one may not be
infinite. -/
def floating? (negative : Bool) (digits : List Char) (exponent : Int) : Option Scalar :=
  match Decimal.Magnitude.ofDecimal? (valueIn 10 digits) exponent with
  | some value => some (.floating (.finite ⟨negative, value⟩))
  | none => if negative then some (.floating (.infinite true)) else none

def readDecimal (negative : Bool) (text : List Char) : Except Place (Scalar × List Char) := do
  let (whole, rest) ← wholeDigits text
  let (fraction, rest) ← match rest with
    | '.' :: rest => do
        let (digits, rest) ← someDigits Char.isDigit rest
        .ok (some digits, rest)
    | _ => .ok (none, rest)
  let (exponent, rest) ← readExponent? rest
  let value :=
    if fraction.isNone && exponent.isNone then integer? negative (valueIn 10 whole)
    else
      let digits := fraction.getD []
      floating? negative (whole ++ digits) (exponent.getD 0 - digits.length)
  match value with
  | some value => .ok (value, rest)
  | none => stuck text

def readNumber (text : List Char) : Except Place (Scalar × List Char) :=
  match text with
  | '0' :: 'x' :: rest => readInBase 16 rest
  | '0' :: 'o' :: rest => readInBase 8 rest
  | '0' :: 'b' :: rest => readInBase 2 rest
  | _ =>
      let (negative, rest) := readSign text
      match rest with
      | 'i' :: 'n' :: 'f' :: after => .ok (.floating (.infinite negative), after)
      | 'n' :: 'a' :: 'n' :: after => .ok (.floating .nan, after)
      | _ => readDecimal negative rest

/-! ## Dates and times -/

def pair? (a b : Char) : Option Nat :=
  if a.isDigit && b.isDigit then some (valueIn 10 [a, b]) else none

/-- Reads two digits that make a number in a range. -/
def readPair (low high : Nat) (text : List Char) : Except Place (Nat × List Char) :=
  match text with
  | a :: b :: rest =>
      match pair? a b with
      | some n => if low ≤ n && n ≤ high then .ok (n, rest) else stuck text
      | none => stuck text
  | _ => stuck text

def readMark (mark : Char) (text : List Char) : Except Place (List Char) :=
  match text with
  | c :: rest => if c = mark then .ok rest else stuck text
  | [] => stuck []

def daysOf (year month : Nat) : Nat :=
  if month = 2 then if year % 4 = 0 && (year % 100 ≠ 0 || year % 400 = 0) then 29 else 28
  else if [4, 6, 9, 11].contains month then 30
  else 31

/-- Reads the minutes and seconds of a time behind the colon after its hours. -/
def readMinutes (text : List Char) : Except Place (List Char) := do
  let (_, rest) ← readPair 0 59 text
  let rest ← readMark ':' rest
  let (_, rest) ← readPair 0 60 rest
  match rest with
  | '.' :: after =>
      let digits := after.takeWhile Char.isDigit
      .ok (if digits.isEmpty then rest else after.drop digits.length)
  | _ => .ok rest

/-- What follows the hours of a time and their colon, if a time starts here. -/
def afterHours? (text : List Char) : Option (List Char) :=
  match text with
  | a :: b :: ':' :: rest => if (pair? a b).any (· ≤ 23) then some rest else none
  | _ => none

def readOffset (text : List Char) : Except Place (List Char) :=
  match text with
  | 'Z' :: rest | 'z' :: rest => .ok rest
  | '+' :: rest | '-' :: rest => do
      let (_, rest) ← readPair 0 23 rest
      let rest ← readMark ':' rest
      let (_, rest) ← readPair 0 59 rest
      .ok rest
  | _ => .ok text

/-- Reads the month and the day of a date, and the time behind it, if there is
one. -/
def readDate (year : Nat) (text : List Char) : Except Place (List Char) := do
  let (month, rest) ← readPair 1 12 text
  let rest ← readMark '-' rest
  let (_, rest) ← readPair 1 (daysOf year month) rest
  match rest with
  | c :: after =>
      if c = 'T' || c = 't' || c = ' ' then
        match afterHours? after with
        | some minutes => readOffset (← readMinutes minutes)
        | none => .ok rest
      else .ok rest
  | [] => .ok []

def readMoment? (text : List Char) : Option (Except Place (List Char)) :=
  match text with
  | a :: b :: c :: d :: '-' :: rest =>
      if [a, b, c, d].all Char.isDigit then some (readDate (valueIn 10 [a, b, c, d]) rest)
      else none
  | _ => (afterHours? text).map readMinutes

/-! ## Values that hold no others -/

def afterWord? (word : String) (text : List Char) : Option (List Char) :=
  word.toList.isPrefixOf? text

def readScalar (text : List Char) : Except Place (Scalar × List Char) :=
  match text with
  | '"' :: _ | '\'' :: _ => do
      let (value, rest) ← readQuoted text
      .ok (.text value, rest)
  | _ =>
      match afterWord? "true" text, afterWord? "false" text with
      | some rest, _ => .ok (.bool true, rest)
      | none, some rest => .ok (.bool false, rest)
      | none, none =>
          match readMoment? text with
          | some outcome => do .ok (.moment, ← outcome)
          | none => readNumber text

end ReviewDiff.Toml

import Mathlib.Data.Nat.Cast.Basic
import ReviewDiff.Json.Value
import ReviewDiff.Proofs.Decimal.Nearest
import ReviewDiff.Text.Number

/-!
# Numbers in JSON texts

A numeral without a point and without a power of ten means a whole number, if that fits
64 bits and is no negative zero.  All other numerals mean the nearest double.

* `Spells.unique` says that a text begins with one numeral only, if what is left cannot
  go on with it.
* `Numeral.Means.unique` says that a numeral means at most one number.
-/

namespace ReviewDiff.Json

/-- What is left does not begin with such a character. -/
def Free (p : Char → Prop) (rest : List Char) : Prop :=
  ∀ c ∈ rest.head?, ¬ p c

theorem free_cons {p : Char → Prop} {c : Char} {rest : List Char} :
    Free p (c :: rest) ↔ ¬ p c := by
  simp [Free]

theorem Free.mono
    {p q : Char → Prop} {rest : List Char} (free : Free p rest)
    (implies : ∀ {c}, q c → p c) :
    Free q rest :=
  fun c first holds => free c first (implies holds)

/-! ## What numerals mean -/

/-- The parts of a number in a text. -/
structure Numeral where
  minus : Bool
  whole : List Char
  fraction : List Char
  power : Option ℤ

namespace Numeral

/-- The number that the digits make without the point. -/
def digits (numeral : Numeral) : ℕ :=
  Text.decimalValue (numeral.whole ++ numeral.fraction)

/-- The number without its sign. -/
def size (numeral : Numeral) : ℚ :=
  numeral.digits * 10 ^ (numeral.power.getD 0 - numeral.fraction.length)

/-- The numeral is a whole number of 64 bits. -/
structure IsInteger (numeral : Numeral) : Prop where
  noFraction : numeral.fraction = []
  noPower : numeral.power = none
  fits :
    if numeral.minus = true then 0 < numeral.digits ∧ numeral.digits ≤ 2 ^ 63
    else numeral.digits < 2 ^ 64

inductive Means (numeral : Numeral) : Number → Prop where
  | unsigned {value : UInt64} (integer : numeral.IsInteger) (plain : numeral.minus = false)
      (same : value.toNat = numeral.digits) :
      Means numeral (.unsigned value)
  | negative {value : Int64} {below : value < 0} (integer : numeral.IsInteger)
      (signed : numeral.minus = true) (same : value.toInt = -numeral.digits) :
      Means numeral (.negative value below)
  | double {value : Decimal.Double} (other : ¬ numeral.IsInteger)
      (sign : value.negative = numeral.minus)
      (nearest : value.magnitude.IsNearest numeral.size) :
      Means numeral (.double value)

theorem Means.unique
    {numeral : Numeral} {number number' : Number} (means : numeral.Means number)
    (means' : numeral.Means number') :
    number = number' := by
  cases means with
  | unsigned integer plain same =>
      cases means' with
      | unsigned _ _ same' => rw [UInt64.toNat_inj.mp (same.trans same'.symm)]
      | negative _ signed _ => exact Bool.noConfusion (plain.symm.trans signed)
      | double other _ _ => exact absurd integer other
  | negative integer signed same =>
      cases means' with
      | unsigned _ plain _ => exact Bool.noConfusion (plain.symm.trans signed)
      | negative _ _ same' =>
          cases Int64.toInt_inj.mp (same.trans same'.symm)
          rfl
      | double other _ _ => exact absurd integer other
  | @double value other sign nearest =>
      cases means' with
      | unsigned integer _ _ | negative integer _ _ => exact absurd integer other
      | @double value' _ sign' nearest' =>
          cases value
          cases value'
          cases nearest.unique nearest'
          cases sign.trans sign'.symm
          rfl

end Numeral

/-! ## How numerals are spelled -/

/-- The text begins with these digits, of which there is at least one. -/
inductive Digits : List Char → List Char → List Char → Prop where
  | last {c : Char} {rest : List Char} (digit : c.isDigit = true) :
      Digits (c :: rest) [c] rest
  | cons {c : Char} {text digits rest : List Char} (digit : c.isDigit = true)
      (more : Digits text digits rest) :
      Digits (c :: text) (c :: digits) rest

/-- The text begins with the digits before the point.  A zero there stands alone. -/
inductive Whole : List Char → List Char → List Char → Prop where
  | zero {rest : List Char} : Whole ('0' :: rest) ['0'] rest
  | other {c : Char} {text digits rest : List Char} (notZero : c ≠ '0')
      (some : Digits (c :: text) digits rest) :
      Whole (c :: text) digits rest

/-- The text begins with a point and digits, or there is no point. -/
inductive Fraction : List Char → List Char → List Char → Prop where
  | none {rest : List Char} : Fraction rest [] rest
  | point {text digits rest : List Char} (some : Digits text digits rest) :
      Fraction ('.' :: text) digits rest

/-- The text begins with a sign, or there is none.  A plus may stand only in an
exponent. -/
inductive Sign (exponent : Bool) : List Char → Bool → List Char → Prop where
  | none {rest : List Char} : Sign exponent rest false rest
  | plus {rest : List Char} (allowed : exponent = true) :
      Sign exponent ('+' :: rest) false rest
  | minus {rest : List Char} : Sign exponent ('-' :: rest) true rest

/-- The number with these digits and a minus before them, if there is one. -/
def signed (minus : Bool) (digits : List Char) : ℤ :=
  if minus = true then -Text.decimalValue digits else Text.decimalValue digits

/-- The text begins with a power of ten, or there is none. -/
inductive Power : List Char → Option ℤ → List Char → Prop where
  | none {rest : List Char} : Power rest none rest
  | mark {c : Char} {text unsigned digits rest : List Char} {minus : Bool}
      (marked : c = 'e' ∨ c = 'E') (sign : Sign true text minus unsigned)
      (some : Digits unsigned digits rest) :
      Power (c :: text) (.some (signed minus digits)) rest

/-- The text begins with a numeral. -/
inductive Spells : List Char → Numeral → List Char → Prop where
  | mk {text unsigned behindWhole behindFraction rest whole fraction : List Char}
      {minus : Bool} {power : Option ℤ} (sign : Sign false text minus unsigned)
      (first : Whole unsigned whole behindWhole)
      (second : Fraction behindWhole fraction behindFraction)
      (third : Power behindFraction power rest) :
      Spells text ⟨minus, whole, fraction, power⟩ rest

/-! ## One reading only -/

/-- A character with which a numeral may go on. -/
def GoesOn (c : Char) : Prop :=
  c.isDigit = true ∨ c = '.' ∨ c = 'e' ∨ c = 'E'

theorem Digits.unique
    {text digits digits' rest rest' : List Char} (read : Digits text digits rest)
    (read' : Digits text digits' rest') (free : Free (·.isDigit = true) rest)
    (free' : Free (·.isDigit = true) rest') :
    digits = digits' ∧ rest = rest' := by
  induction read generalizing digits' with
  | last digit =>
      cases read' with
      | last _ => exact ⟨rfl, rfl⟩
      | cons _ more =>
          cases more with
          | last next => exact absurd next (free_cons.mp free)
          | cons next _ => exact absurd next (free_cons.mp free)
  | cons digit more inductionHypothesis =>
      cases read' with
      | last _ =>
          cases more with
          | last next => exact absurd next (free_cons.mp free')
          | cons next _ => exact absurd next (free_cons.mp free')
      | cons _ more' =>
          obtain ⟨rfl, rfl⟩ := inductionHypothesis more' free
          exact ⟨rfl, rfl⟩

theorem Digits.exists_head
    {text digits rest : List Char} (read : Digits text digits rest) :
    ∃ c more, text = c :: more ∧ c.isDigit = true := by
  cases read with
  | last digit | cons digit _ => exact ⟨_, _, rfl, digit⟩

theorem Whole.exists_head
    {text digits rest : List Char} (read : Whole text digits rest) :
    ∃ c more, text = c :: more ∧ c.isDigit = true := by
  cases read with
  | zero => exact ⟨_, _, rfl, rfl⟩
  | other _ some => exact some.exists_head

theorem Whole.unique
    {text digits digits' rest rest' : List Char} (read : Whole text digits rest)
    (read' : Whole text digits' rest') (free : Free (·.isDigit = true) rest)
    (free' : Free (·.isDigit = true) rest') :
    digits = digits' ∧ rest = rest' := by
  cases read with
  | zero =>
      cases read' with
      | zero => exact ⟨rfl, rfl⟩
      | other notZero _ => exact absurd rfl notZero
  | other notZero some =>
      cases read' with
      | zero => exact absurd rfl notZero
      | other _ some' => exact some.unique some' free free'

theorem Sign.unique
    {exponent : Bool} {text rest rest' : List Char} {minus minus' : Bool}
    (read : Sign exponent text minus rest) (read' : Sign exponent text minus' rest')
    (digit : ∃ c more, rest = c :: more ∧ c.isDigit = true)
    (digit' : ∃ c more, rest' = c :: more ∧ c.isDigit = true) :
    minus = minus' ∧ rest = rest' := by
  obtain ⟨c, more, rfl, digit⟩ := digit
  obtain ⟨c', more', rfl, digit'⟩ := digit'
  cases read with
  | none =>
      cases read' with
      | none => exact ⟨rfl, rfl⟩
      | plus _ | minus => cases digit
  | plus _ =>
      cases read' with
      | none => cases digit'
      | plus _ => exact ⟨rfl, rfl⟩
  | minus =>
      cases read' with
      | none => cases digit'
      | minus => exact ⟨rfl, rfl⟩

theorem Power.free
    {text rest : List Char} {power : Option ℤ} (read : Power text power rest)
    (free : Free GoesOn rest) :
    Free (fun c => c.isDigit = true ∨ c = '.') text := by
  cases read with
  | none => exact free.mono (Or.imp_right .inl)
  | mark marked _ _ =>
      rw [free_cons]
      rcases marked with rfl | rfl <;> decide

theorem Power.unique
    {text rest rest' : List Char} {power power' : Option ℤ} (read : Power text power rest)
    (read' : Power text power' rest') (free : Free GoesOn rest) (free' : Free GoesOn rest') :
    power = power' ∧ rest = rest' := by
  cases read with
  | none =>
      cases read' with
      | none => exact ⟨rfl, rfl⟩
      | mark marked _ _ => exact absurd (.inr (.inr marked)) (free_cons.mp free)
  | mark marked sign some =>
      cases read' with
      | none => exact absurd (.inr (.inr marked)) (free_cons.mp free')
      | mark _ sign' some' =>
          obtain ⟨rfl, rfl⟩ := sign.unique sign' some.exists_head some'.exists_head
          obtain ⟨rfl, rfl⟩ := some.unique some' (free.mono .inl) (free'.mono .inl)
          exact ⟨rfl, rfl⟩

theorem Fraction.free
    {text digits rest : List Char} (read : Fraction text digits rest)
    (free : Free (·.isDigit = true) rest) :
    Free (·.isDigit = true) text := by
  cases read with
  | none => exact free
  | point _ => exact free_cons.mpr (by decide)

theorem Fraction.unique
    {text digits digits' rest rest' : List Char} (read : Fraction text digits rest)
    (read' : Fraction text digits' rest')
    (free : Free (fun c => c.isDigit = true ∨ c = '.') rest)
    (free' : Free (fun c => c.isDigit = true ∨ c = '.') rest') :
    digits = digits' ∧ rest = rest' := by
  cases read with
  | none =>
      cases read' with
      | none => exact ⟨rfl, rfl⟩
      | point _ => exact absurd (.inr rfl) (free_cons.mp free)
  | point some =>
      cases read' with
      | none => exact absurd (.inr rfl) (free_cons.mp free')
      | point some' => exact some.unique some' (free.mono .inl) (free'.mono .inl)

section Spelling

variable {text rest rest' : List Char} {numeral numeral' : Numeral}

theorem Spells.unique
    (spells : Spells text numeral rest) (spells' : Spells text numeral' rest')
    (free : Free GoesOn rest) (free' : Free GoesOn rest') :
    numeral = numeral' ∧ rest = rest' := by
  obtain ⟨sign, whole, fraction, power⟩ := spells
  obtain ⟨sign', whole', fraction', power'⟩ := spells'
  obtain ⟨rfl, rfl⟩ := sign.unique sign' whole.exists_head whole'.exists_head
  obtain ⟨rfl, rfl⟩ :=
    whole.unique whole' (fraction.free ((power.free free).mono .inl))
      (fraction'.free ((power'.free free').mono .inl))
  obtain ⟨rfl, rfl⟩ := fraction.unique fraction' (power.free free) (power'.free free')
  obtain ⟨rfl, rfl⟩ := power.unique power' free free'
  exact ⟨rfl, rfl⟩

/-- A numeral begins with a minus or a digit. -/
theorem Spells.exists_head (spells : Spells text numeral rest) :
    ∃ c more, text = c :: more ∧ (c = '-' ∨ c.isDigit = true) := by
  obtain ⟨sign, whole, -, -⟩ := spells
  cases sign with
  | none =>
      obtain ⟨c, more, rfl, digit⟩ := whole.exists_head
      exact ⟨c, more, rfl, .inr digit⟩
  | plus allowed => cases allowed
  | minus => exact ⟨_, _, rfl, .inl rfl⟩

theorem Spells.not_cons {c : Char} (other : ¬ (c = '-' ∨ c.isDigit = true)) :
    ¬ Spells (c :: text) numeral rest := by
  intro spells
  obtain ⟨_, _, ⟨⟩, first⟩ := spells.exists_head
  exact other first

end Spelling

end ReviewDiff.Json

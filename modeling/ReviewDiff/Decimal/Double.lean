/-!
# Doubles

The bits behind the sign of a finite double give the rank of its size.  All sizes
are multiples of half the least positive one.  What is rounded goes to the nearest
double, a half to the even neighbour.
-/

namespace ReviewDiff.Decimal

/-- The size of a finite double, by the bits behind its sign. -/
structure Magnitude where
  bits : Nat
  finite : bits < 2047 * Nat.pow 2 52
  deriving DecidableEq, Repr

/-- A finite binary64 number. -/
structure Double where
  negative : Bool
  magnitude : Magnitude
  deriving DecidableEq, Repr

def Magnitude.zero : Magnitude :=
  ⟨0, by decide⟩

/-- Half the least positive double is a half unit, `2 ^ -unitPower`. -/
def unitPower : Nat := 1075

/-- The size with these bits in half units. -/
def halfUnits (bits : Nat) : Nat :=
  if bits < Nat.pow 2 52 then 2 * bits
  else (Nat.pow 2 52 + bits % Nat.pow 2 52) * Nat.pow 2 (bits / Nat.pow 2 52)

/-! ## Rounding -/

/-- The quotient rounded to the nearest number, a half to the even neighbour. -/
def roundDiv (numerator denominator : Nat) : Nat :=
  let below := numerator / denominator
  let left := 2 * (numerator % denominator)
  if denominator < left || (left = denominator && below % 2 = 1) then below + 1 else below

/-- The double nearest to a fraction; missing when that is infinite.  A
significand that is rounded up to `2 ^ 53` carries over into the power of two. -/
def nearest? (numerator denominator : Nat) : Option Magnitude :=
  let scaled := numerator * Nat.pow 2 unitPower
  let power := max 1 ((scaled / denominator).log2 - 52)
  let bits := (power - 1) * Nat.pow 2 52 + roundDiv scaled (denominator * Nat.pow 2 power)
  if finite : bits < 2047 * Nat.pow 2 52 then some ⟨bits, finite⟩ else none

namespace Magnitude

def product? (a b : Magnitude) : Option Magnitude :=
  nearest? (halfUnits a.bits * halfUnits b.bits) (Nat.pow 2 unitPower * Nat.pow 2 unitPower)

def quotient? (a b : Magnitude) : Option Magnitude :=
  nearest? (halfUnits a.bits) (halfUnits b.bits)

def powerOfTen? (exponent : Nat) : Option Magnitude :=
  nearest? (Nat.pow 10 exponent) 1

/-- The double nearest to `mantissa · 10 ^ exponent`; missing when that is
infinite. -/
def ofDecimal? (mantissa : Nat) (exponent : Int) : Option Magnitude :=
  let size : Int := (Nat.toDigits 10 mantissa).length + exponent
  if mantissa = 0 || size < -400 then some zero
  else if 400 < size then none
  else nearest? (mantissa * Nat.pow 10 exponent.toNat) (Nat.pow 10 (-exponent).toNat)

end Magnitude

end ReviewDiff.Decimal

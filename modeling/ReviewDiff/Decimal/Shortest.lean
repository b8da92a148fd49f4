import ReviewDiff.Decimal.Double

/-!
# The shortest decimal text of a double

Of all decimals that read back as a double, those on the coarsest grid, the
multiples of the greatest `10 ^ exponent`, have the fewest digits.  The one nearest
to the double is taken, and the format decides between two that are equally near.
-/

namespace ReviewDiff.Decimal

/-- Whether the fraction, in half units, is rounded to the double with these bits.
-/
def readsBack (bits numerator denominator : Nat) : Bool :=
  let low := (halfUnits (bits - 1) + halfUnits bits) / 2 * denominator
  let high := (halfUnits bits + halfUnits (bits + 1)) / 2 * denominator
  if bits % 2 = 0 then low ≤ numerator && numerator ≤ high
  else low < numerator && numerator < high

/-- The step of the grid `10 ^ exponent`, in half units, as a fraction. -/
def gridStep (exponent : Int) : Nat × Nat :=
  (Nat.pow 10 exponent.toNat * Nat.pow 2 unitPower, Nat.pow 10 (-exponent).toNat)

/-- The point of a grid that is nearest to a double, if it reads back as that.
Between two equally near ones `goesUp` decides, given the lower one. -/
def pointOn? (goesUp : Nat → Bool) (bits : Nat) (exponent : Int) : Option Nat :=
  let (step, parts) := gridStep exponent
  let below := halfUnits bits * parts / step
  let left := 2 * (halfUnits bits * parts % step)
  let upNearer := step < left || (left = step && goesUp below)
  let under := readsBack bits (below * step) parts
  let above := readsBack bits ((below + 1) * step) parts
  if above && (upNearer || !under) then some (below + 1)
  else if under then some below
  else none

/-- The finest grid that is needed: it has a point for every double. -/
def finestExponent : Int := -324

/-- The point on the coarsest grid from `10 ^ (finestExponent + finer)` on. -/
def coarsest (goesUp : Nat → Bool) (bits : Nat) : (finer : Nat) → Nat × Int
  | 0 => ((pointOn? goesUp bits finestExponent).getD 0, finestExponent)
  | finer + 1 =>
      match pointOn? goesUp bits (finestExponent + (finer + 1 : Nat)) with
      | some point => (point, finestExponent + (finer + 1 : Nat))
      | none => coarsest goesUp bits finer

/-- The shortest decimal `mantissa · 10 ^ exponent` that reads back as a double.
No double reaches a grid above `10 ^ 308`. -/
def shortest (goesUp : Nat → Bool) (magnitude : Magnitude) : Nat × Int :=
  if magnitude.bits = 0 then (0, 0) else coarsest goesUp magnitude.bits 632

/-- A decimal in positional notation, with a point and at least one digit behind
it. -/
def positional (mantissa : Nat) (exponent : Int) : List Char :=
  let digits := Nat.toDigits 10 mantissa
  if 0 ≤ exponent then digits ++ List.replicate exponent.toNat '0' ++ ['.', '0']
  else
    let places := (-exponent).toNat
    let padded := List.replicate (places + 1 - digits.length) '0' ++ digits
    padded.take (padded.length - places) ++ '.' :: padded.drop (padded.length - places)

end ReviewDiff.Decimal

import LineScript.Binary64

/-!
# The nearest floating-point number

A positive ratio of naturals is rounded to the nearest number, a tie to the one
with the even significand.  The arithmetic is exact: the ratio is scaled by a
power of two so that its integer part is the significand, and only that one
quotient is rounded.
-/

namespace LineScript.Binary64

open LineScript.Numeral

/-- A quotient rounded to the nearest natural, a half to the even neighbour. -/
def roundHalfEven (numerator denominator : Nat) : Nat :=
  let quotient := numerator / denominator
  let doubled := 2 * (numerator % denominator)
  if denominator < doubled ∨ (doubled = denominator ∧ quotient % 2 = 1) then
    quotient + 1
  else quotient

/-- The ratio times `2 ^ power`, as a numerator and a denominator. -/
def scale (numerator denominator : Nat) (power : Int) : Nat × Nat :=
  (numerator * twoPow power.toNat, denominator * twoPow (-power).toNat)

/-- The largest power of two not above a positive ratio. -/
def floorLog2 (numerator denominator : Nat) : Int :=
  let estimate : Int := (numerator.log2 : Int) - denominator.log2
  match scale numerator denominator (-estimate) with
  | (top, bottom) => if bottom ≤ top then estimate else estimate - 1

/-- The number nearest to a ratio with a positive denominator. -/
def nearest (negative : Bool) (numerator denominator : Nat) : Binary64 :=
  if numerator = 0 then zero negative
  else
    let power := max (floorLog2 numerator denominator - 52) (-1074)
    match scale numerator denominator (-power) with
    | (top, bottom) =>
        let magnitude := (power + 1074).toNat * twoPow 52 + roundHalfEven top bottom
        if magnitude < specialExponent * twoPow 52 then ofMagnitude negative magnitude
        else infinity negative

end LineScript.Binary64

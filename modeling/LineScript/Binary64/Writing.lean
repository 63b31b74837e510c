import LineScript.Binary64
import LineScript.Numeral.Integer

/-!
# Writing floating-point numerals

A finite number is written positionally, with digits on both sides of a point.
An integral number is written exactly, with the fraction `0`.  Any other number
is written with the fewest fraction digits that still read back as it: the
decimal grids `10 ^ -1`, `10 ^ -2`, … are tried in turn, and on each the two
grid points next to the number are tested against the interval of reals that
round to it.  If both lie inside, the nearer one is written, and the upper one
in a tie.
-/

namespace LineScript.Binary64

open LineScript.Numeral

/-- The reals that round to a number, together with the number itself.  All are
given in units of `2 ^ unit`: `low` and `high` bound the interval and `middle`
is the number.  The ends belong to it when the significand is even. -/
structure RoundingInterval where
  low : Nat
  middle : Nat
  high : Nat
  unit : Int
  closed : Bool
  deriving DecidableEq, Repr

/-- The interval of a finite number.  Below a power of two the numbers lie twice
as dense as above it. -/
def roundingInterval (x : Binary64) : RoundingInterval :=
  let middle := 4 * x.significand
  let below := if x.fractionField = 0 ∧ 1 < x.exponentField then 1 else 2
  { low := middle - below
    middle := middle
    high := middle + 2
    unit := x.exponent - 2
    closed := x.significand % 2 == 0 }

namespace RoundingInterval

/-- The interval's ends and middle on the grid `10 ^ -places`, as numerators
over a common denominator. -/
def onGrid (interval : RoundingInterval) (places : Nat) : Nat × Nat × Nat × Nat :=
  let factor := tenPow places * twoPow interval.unit.toNat
  (interval.low * factor, interval.middle * factor, interval.high * factor,
    twoPow (-interval.unit).toNat)

/-- The grid point next to the middle that reads back, if there is one. -/
def candidate? (interval : RoundingInterval) (places : Nat) : Option Nat :=
  match interval.onGrid places with
  | (low, middle, high, denominator) =>
      let down := middle / denominator
      let up := down + 1
      let downInside :=
        low < down * denominator || (interval.closed && low == down * denominator)
      let upInside :=
        up * denominator < high || (interval.closed && up * denominator == high)
      if downInside && upInside then
        if 2 * (middle % denominator) < denominator then some down else some up
      else if downInside then some down
      else if upInside then some up
      else none

/-- Try the grids of `places`, `places + 1`, … fraction digits.  The last grid
holds the number itself. -/
def fewestPlaces (interval : RoundingInterval) : (places attempts : Nat) → Nat × Nat
  | places, 0 =>
      match interval.onGrid places with
      | (_, middle, _, denominator) => (places, middle / denominator)
  | places, attempts + 1 =>
      match interval.candidate? places with
      | some point => (places, point)
      | none => interval.fewestPlaces (places + 1) attempts

end RoundingInterval

/-- Digits padded with zeros on the left to a given length. -/
def padded (length n : Nat) : List Char :=
  let digits := naturalDigits n
  List.replicate (length - digits.length) '0' ++ digits

/-- The integer part of a finite number's magnitude. -/
def wholePart (x : Binary64) : Nat :=
  x.significand * twoPow x.exponent.toNat / twoPow (-x.exponent).toNat

def isIntegral (x : Binary64) : Bool :=
  x.significand % twoPow (-x.exponent).toNat == 0

/-- The magnitude of a finite number, written positionally. -/
def magnitudeText (x : Binary64) : List Char :=
  if x.isIntegral then naturalDigits x.wholePart ++ ['.', '0']
  else
    match x.roundingInterval.fewestPlaces 1 (-x.exponent).toNat with
    | (places, point) =>
        naturalDigits (point / tenPow places) ++ '.' :: padded places (point % tenPow places)

def text (x : Binary64) : String :=
  if x.isNaN then "NaN"
  else
    let magnitude := if x.isFinite then x.magnitudeText else "inf".toList
    String.ofList (if x.negative then '-' :: magnitude else magnitude)

end LineScript.Binary64

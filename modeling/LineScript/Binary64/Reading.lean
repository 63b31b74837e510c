import LineScript.Binary64.Nearest
import LineScript.Numeral.Integer

/-!
# Reading floating-point numerals

A numeral has an optional sign, digits with at most one point among or around
them, and an optional power of ten.  It is read as the nearest number; one too
large is infinite and one too small is zero.  The words for infinity and NaN
are numerals too, in either letter case.
-/

namespace LineScript.Numeral

/-- A decimal numeral: `± coefficient * 10 ^ power`. -/
structure Decimal where
  negative : Bool
  coefficient : Nat
  power : Int
  deriving DecidableEq, Repr

namespace Decimal

/-- Read what may stand behind the digits: nothing, or `e` and an integer. -/
def powerMark? : List Char → Option Int
  | [] => some 0
  | c :: rest => if c = 'e' || c = 'E' then integer? rest else none

/-- Read the fraction digits behind a point, if there is one.  The rest stands
behind them. -/
def splitFraction : List Char → List Char × List Char
  | [] => ([], [])
  | c :: rest =>
      if c = '.' then (rest.takeWhile Char.isDigit, rest.dropWhile Char.isDigit)
      else ([], c :: rest)

def unsigned? (negative : Bool) (chars : List Char) : Option Decimal :=
  let whole := chars.takeWhile Char.isDigit
  match splitFraction (chars.dropWhile Char.isDigit) with
  | (fraction, rest) =>
      if whole.isEmpty && fraction.isEmpty then none
      else
        (powerMark? rest).map fun power =>
          ⟨negative, naturalOfDigits (whole ++ fraction), power - fraction.length⟩

def read? (chars : List Char) : Option Decimal :=
  match splitSign chars with
  | (negative, rest) => unsigned? negative rest

end Decimal

end LineScript.Numeral

namespace LineScript.Binary64

open LineScript.Numeral

/-- The number nearest to a decimal.  A decimal of `d` digits is at least
`10 ^ (d + power - 1)` and below `10 ^ (d + power)`, which settles the
magnitudes far outside the range without forming them. -/
def ofDecimal (decimal : Decimal) : Binary64 :=
  let reach := (naturalDigits decimal.coefficient).length + decimal.power
  if decimal.coefficient = 0 ∨ reach < -330 then zero decimal.negative
  else if 330 < reach then infinity decimal.negative
  else
    nearest decimal.negative (decimal.coefficient * tenPow decimal.power.toNat)
      (tenPow (-decimal.power).toNat)

/-- Read the name of a number that is not finite. -/
def special? (chars : List Char) : Option Binary64 :=
  match splitSign chars with
  | (negative, word) =>
      let word := word.map Char.toLower
      if word = "inf".toList ∨ word = "infinity".toList then some (infinity negative)
      else if word = "nan".toList then some (nan negative)
      else none

def read? (text : String) : Option Binary64 :=
  match Decimal.read? text.toList with
  | some decimal => some (ofDecimal decimal)
  | none => special? text.toList

end LineScript.Binary64

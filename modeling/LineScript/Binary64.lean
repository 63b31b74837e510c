import LineScript.Numeral.Power

/-!
# Binary floating point of 64 bits

A number is kept as its bit pattern: a sign bit, eleven exponent bits and
fifty-two fraction bits.  Equality is equality of patterns, so the two zeros
differ and every NaN equals itself.  A finite pattern denotes
`± significand * 2 ^ exponent`.
-/

namespace LineScript

structure Binary64 where
  bits : UInt64
  deriving DecidableEq, Repr, Inhabited

namespace Binary64

open LineScript.Numeral

def negative (x : Binary64) : Bool := twoPow 63 ≤ x.bits.toNat

def exponentField (x : Binary64) : Nat := x.bits.toNat / twoPow 52 % twoPow 11

def fractionField (x : Binary64) : Nat := x.bits.toNat % twoPow 52

/-- The exponent field that infinities and NaNs carry. -/
def specialExponent : Nat := twoPow 11 - 1

def isFinite (x : Binary64) : Bool := x.exponentField != specialExponent

def isNaN (x : Binary64) : Bool :=
  x.exponentField == specialExponent && x.fractionField != 0

/-- The integer significand of a finite number, with its hidden bit. -/
def significand (x : Binary64) : Nat :=
  if x.exponentField = 0 then x.fractionField else twoPow 52 + x.fractionField

/-- The power of two that a finite number's significand is scaled by. -/
def exponent (x : Binary64) : Int := (max x.exponentField 1 : Nat) - 1075

/-- A number from its sign and the 63 bits of its magnitude. -/
def ofMagnitude (negative : Bool) (magnitude : Nat) : Binary64 :=
  ⟨UInt64.ofNat (if negative then twoPow 63 + magnitude else magnitude)⟩

def zero (negative : Bool) : Binary64 := ofMagnitude negative 0

def infinity (negative : Bool) : Binary64 :=
  ofMagnitude negative (specialExponent * twoPow 52)

/-- The quiet NaN without payload. -/
def nan (negative : Bool) : Binary64 :=
  ofMagnitude negative (specialExponent * twoPow 52 + twoPow 51)

end Binary64

end LineScript

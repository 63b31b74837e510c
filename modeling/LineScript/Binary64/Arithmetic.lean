import LineScript.Binary64.Nearest

/-!
# Arithmetic on floating-point numbers

Ratios, sums and thirds of finite numbers that are not negative.  Each result is
the number nearest to the exact one, so a chain of operations rounds after every
step.
-/

namespace LineScript.Binary64

/-- The exact value of a finite number that is not negative, as a numerator and
a denominator. -/
def fraction (x : Binary64) : Nat × Nat := scale x.significand 1 x.exponent

/-- The quotient of two naturals, the second not zero. -/
def ratio (numerator denominator : Nat) : Binary64 := nearest false numerator denominator

def add (x y : Binary64) : Binary64 :=
  match x.fraction, y.fraction with
  | (a, b), (c, d) => ratio (a * d + c * b) (b * d)

/-- The quotient of a number and a natural that is not zero. -/
def divide (x : Binary64) (divisor : Nat) : Binary64 :=
  match x.fraction with
  | (a, b) => ratio a (b * divisor)

/-- The order of numbers that are not negative is that of their patterns. -/
def isBelow (x y : Binary64) : Bool := x.bits < y.bits

end LineScript.Binary64

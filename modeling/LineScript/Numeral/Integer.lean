/-!
# Decimal integers

Texts of naturals and integers in base ten, and the signed 64-bit integers
among them.  Reading takes an optional sign and at least one digit, however
many; writing gives the shortest such text, with a sign only when it is
negative.
-/

namespace LineScript.Numeral

/-- Take a sign off the front of a numeral.  The Boolean tells whether it was
a minus. -/
def splitSign : List Char → Bool × List Char
  | [] => (false, [])
  | c :: rest =>
      if c = '-' then (true, rest)
      else if c = '+' then (false, rest)
      else (false, c :: rest)

/-- The digits of a natural, the most significant first. -/
def naturalDigits (n : Nat) : List Char := Nat.toDigits 10 n

def naturalOfDigits (digits : List Char) : Nat := Nat.ofDigitChars 10 digits 0

/-- Read a natural: digits only, and at least one of them. -/
def natural? (chars : List Char) : Option Nat :=
  if !chars.isEmpty && chars.all Char.isDigit then some (naturalOfDigits chars)
  else none

/-- Read an integer of any size, with an optional sign. -/
def integer? (chars : List Char) : Option Int :=
  match splitSign chars with
  | (negative, digits) =>
      (natural? digits).map fun n => if negative then -(n : Int) else n

def int64? (text : String) : Option Int64 :=
  match integer? text.toList with
  | some n =>
      if Int64.minValue.toInt ≤ n ∧ n ≤ Int64.maxValue.toInt then some (Int64.ofInt n)
      else none
  | none => none

def integerText (n : Int) : String :=
  if n < 0 then String.ofList ('-' :: naturalDigits n.natAbs)
  else String.ofList (naturalDigits n.natAbs)

def naturalText (n : Nat) : String := String.ofList (naturalDigits n)

theorem natural?_naturalDigits (n : Nat) : natural? (naturalDigits n) = some n := by
  have digits : (Nat.toDigits 10 n).all Char.isDigit = true :=
    List.all_eq_true.mpr fun _ member =>
      Nat.isDigit_of_mem_toDigits (by decide) (by decide) member
  have nonempty : (Nat.toDigits 10 n).isEmpty = false := by
    simp [Nat.toDigits_ne_nil]
  simp [natural?, naturalDigits, naturalOfDigits, digits, nonempty,
    Nat.ofDigitChars_ten_toDigits]

end LineScript.Numeral

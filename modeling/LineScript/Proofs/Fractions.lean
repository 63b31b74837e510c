import LineScript.Proofs.Literals
import LineScript.Proofs.Rounding.Shortest

/-!
# Fractions that are shown

A finite number is shown with digits on both sides of one point, behind a minus sign exactly if
its sign bit is set.  The text is one token on a line of its own and is read back as the number.
An integer is shown exactly, with the fraction `0`.  For any other number no numeral that is read
as it has fewer characters, and none without a point is read as it: the nearest number to an
integer is an integer.
-/

namespace LineScript

open Numeral

/-! ## Digits -/

namespace Numeral

theorem naturalOfDigits_naturalDigits (n : ℕ) : naturalOfDigits (naturalDigits n) = n :=
  Nat.ofDigitChars_ten_toDigits

theorem naturalOfDigits_append (front back : List Char) :
    naturalOfDigits (front ++ back) =
      naturalOfDigits front * 10 ^ back.length + naturalOfDigits back := by
  rw [naturalOfDigits, Nat.ofDigitChars_append, Nat.ofDigitChars_eq_ofDigitChars_zero, mul_comm]
  rfl

theorem naturalOfDigits_lt {digits : List Char} (digital : ∀ c ∈ digits, c.isDigit = true) :
    naturalOfDigits digits < 10 ^ digits.length := by
  induction digits with
  | nil => exact Nat.one_pos
  | cons c rest ih =>
      obtain ⟨digit, others⟩ := List.forall_mem_cons.mp digital
      have first : c.toNat - '0'.toNat ≤ 9 :=
        Nat.sub_le_sub_right (Char.isDigit_iff_toNat.mp digit).2 _
      have tail := ih others
      have value : naturalOfDigits (c :: rest) =
          10 ^ rest.length * (c.toNat - '0'.toNat) + naturalOfDigits rest := by
        rw [naturalOfDigits, Nat.ofDigitChars_cons, Nat.ofDigitChars_eq_ofDigitChars_zero, mul_zero,
          zero_add]
        rfl
      calc naturalOfDigits (c :: rest)
          < 10 ^ rest.length * (c.toNat - '0'.toNat) + 10 ^ rest.length := by omega
        _ ≤ 10 ^ rest.length * 9 + 10 ^ rest.length :=
            Nat.add_le_add_right (Nat.mul_le_mul_left _ first) _
        _ = 10 ^ (c :: rest).length := by
            rw [List.length_cons]
            ring

/-- A point of a decimal grid, written positionally. -/
def positional (places point : ℕ) : List Char :=
  naturalDigits (point / tenPow places) ++ '.' :: Binary64.padded places (point % tenPow places)

end Numeral

namespace Binary64

theorem length_padded {places n : ℕ} (positive : 0 < places) (bounded : n < 10 ^ places) :
    (padded places n).length = places := by
  have digits := (lt_ten_pow_iff positive).mp bounded
  simp only [padded, List.length_append, List.length_replicate]
  omega

theorem naturalOfDigits_padded (places n : ℕ) : naturalOfDigits (padded places n) = n := by
  have zeros : naturalOfDigits (List.replicate (places - (naturalDigits n).length) '0') = 0 :=
    Nat.ofDigitChars_replicate_zero
  simp only [padded, naturalOfDigits_append, naturalOfDigits_naturalDigits, zeros, zero_mul,
    zero_add]

theorem isDigits_padded (places n : ℕ) : IsDigits (padded places n) := by
  have digital := isDigits_naturalDigits n
  refine ⟨by simp [padded, digital.1], fun c member => ?_⟩
  rcases List.mem_append.mp member with zero | digit
  · rw [List.eq_of_mem_replicate zero]
    rfl
  · exact digital.2 c digit

end Binary64

namespace Numeral

section Positional

variable {places point : ℕ}

theorem mod_tenPow_lt (places point : ℕ) : point % tenPow places < 10 ^ places :=
  Nat.mod_lt point (tenPow_pos places)

theorem naturalOfDigits_positional (positive : 0 < places) :
    naturalOfDigits (naturalDigits (point / tenPow places) ++
      Binary64.padded places (point % tenPow places)) = point := by
  rw [naturalOfDigits_append, naturalOfDigits_naturalDigits, Binary64.naturalOfDigits_padded,
    Binary64.length_padded positive (mod_tenPow_lt places point)]
  exact Nat.div_add_mod' point (10 ^ places)

theorem isFraction_signed_positional (negative : Bool) (places point : ℕ) :
    IsFraction (signed negative (positional places point)) := by
  have whole := isDigits_naturalDigits (point / tenPow places)
  have fraction := Binary64.isDigits_padded places (point % tenPow places)
  cases negative with
  | false => exact .positive whole fraction
  | true => exact .negative whole fraction

theorem head?_signed_positional (negative : Bool) (places point : ℕ) :
    (signed negative (positional places point)).head? = some '-' ↔ negative = true := by
  cases negative with
  | false =>
      have whole := isDigits_naturalDigits (point / tenPow places)
      have other : (positional places point).head? ≠ some '-' :=
        Token.head?_ne_minus (whole.beginsWithDigit_append _)
      simp [signed, other]
  | true => simp [signed]

theorem length_positional (positive : 0 < places) :
    (positional places point).length =
      (naturalDigits (point / tenPow places)).length + (places + 1) := by
  rw [positional, List.length_append, List.length_cons,
    Binary64.length_padded positive (mod_tenPow_lt places point)]

end Positional

/-! ## Reading numerals -/

namespace Decimal

theorem value_places (negative : Bool) (places point : ℕ) :
    value ⟨negative, point, -places⟩ = Binary64.gridPoint places point := by
  rw [value, zpow_neg, zpow_natCast, ← div_eq_mul_inv]
  rfl

theorem read?_positional (negative : Bool) {places : ℕ} (positive : 0 < places) (point : ℕ) :
    read? (signed negative (positional places point)) = some ⟨negative, point, -places⟩ := by
  have whole := isDigits_naturalDigits (point / tenPow places)
  rw [positional, read?_signed negative (whole.beginsWithDigit_append _),
    unsigned?_fraction negative whole (Binary64.isDigits_padded places _).2,
    naturalOfDigits_positional positive,
    Binary64.length_padded positive (mod_tenPow_lt places point)]

end Decimal

end Numeral

namespace Binary64

variable {x : Binary64}

/-! ## The numbers that numerals are read as -/

theorem read?_eq_some_iff (finite : x.isFinite = true) {text : String} {negative : Bool}
    {places point : ℕ} (read : Decimal.read? text.toList = some ⟨negative, point, -places⟩) :
    read? text = some x ↔ x.negative = negative ∧ RoundsTo (gridPoint places point) x.rank := by
  rw [read?, read, Option.some.injEq, (isNearest_ofDecimal _).eq_iff finite, Decimal.value_places]

theorem gridPoint_zero (point : ℕ) : gridPoint 0 point = point := by
  rw [gridPoint, pow_zero, div_one]

theorem not_roundsTo_natCast (fractional : x.isIntegral = false) (n : ℕ) :
    ¬ RoundsTo n x.rank := by
  intro rounds
  obtain ⟨whole, integral⟩ := rounds.exists_valueAt_eq_natCast
  rw [← value_eq] at integral
  rw [isIntegral_iff.mpr ⟨whole, integral⟩] at fractional
  contradiction

/-- No integer lies between two points that are rounded to a number that is no integer. -/
theorem div_le_div_of_roundsTo (fractional : x.isIntegral = false)
    {places point others other : ℕ} (first : RoundsTo (gridPoint places point) x.rank)
    (second : RoundsTo (gridPoint others other) x.rank) :
    point / 10 ^ places ≤ other / 10 ^ others := by
  by_contra! less
  have low : gridPoint others other ≤ (point / 10 ^ places : ℕ) := by
    have below := (Nat.div_lt_iff_lt_mul (by positivity)).mp less
    rw [gridPoint, div_le_iff₀ (by positivity)]
    exact_mod_cast below.le
  have high : ((point / 10 ^ places : ℕ) : ℚ) ≤ gridPoint places point := by
    rw [gridPoint, le_div_iff₀ (by positivity)]
    exact_mod_cast Nat.div_mul_le_self point (10 ^ places)
  exact not_roundsTo_natCast fractional _ (second.convex first low high)

/-! ## The text of a finite number -/

theorem text_of_isFinite (finite : x.isFinite = true) :
    x.text.toList = signed x.negative x.magnitudeText := by
  have number : x.isNaN = false := by
    rw [isFinite, bne_iff_ne] at finite
    simp [isNaN, finite]
  rw [text, number, if_neg Bool.false_ne_true, if_pos finite, String.toList_ofList]
  rfl

theorem magnitudeText_of_value {n : ℕ} (integral : x.value = n) :
    x.magnitudeText = naturalDigits n ++ ['.', '0'] := by
  rw [magnitudeText, if_pos (isIntegral_iff.mpr ⟨n, integral⟩), wholePart_eq integral]

theorem exists_magnitudeText_eq (x : Binary64) :
    ∃ places point, x.magnitudeText = positional places point ∧ IsCoarsest x 1 places point := by
  cases integral : x.isIntegral with
  | true =>
      obtain ⟨n, value⟩ := isIntegral_iff.mp integral
      have exact : gridPoint 1 (n * 10) = x.value := by
        rw [value, gridPoint, pow_one, Nat.cast_mul, Nat.cast_ofNat,
          mul_div_cancel_right₀ _ (by norm_num)]
      refine ⟨1, n * 10, ?_, ?_, le_rfl, fun fewer other low high => by omega⟩
      · have whole : n * 10 / tenPow 1 = n := Nat.mul_div_cancel n (by decide)
        have rest : n * 10 % tenPow 1 = 0 := Nat.mul_mod_left n 10
        rw [magnitudeText_of_value value, positional, whole, rest]
        rfl
      · rw [exact, value_eq]
        exact roundsTo_valueAt x.rank
  | false =>
      refine ⟨_, _, ?_, isCoarsest_of_not_isIntegral integral⟩
      rw [magnitudeText, integral, if_neg Bool.false_ne_true]
      rfl

/-- Only a numeral with a point is read as a number that is no integer, and the number is shown
with no more characters. -/
theorem length_le_of_read? (finite : x.isFinite = true) (fractional : x.isIntegral = false)
    {numeral : String} {kind : TokenKind}
    (found : Token.numeralKind? numeral.toList = some kind) (read : read? numeral = some x) :
    kind = .float ∧ x.text.length ≤ numeral.length := by
  obtain ⟨negative, whole, fraction, parts⟩ := exists_parts found
  obtain ⟨sign, rounds⟩ := (read?_eq_some_iff finite parts.read).mp read
  have pointed : fraction ≠ [] := by
    rintro rfl
    rw [List.length_nil, gridPoint_zero] at rounds
    exact not_roundsTo_natCast fractional _ rounds
  obtain rfl : kind = .float :=
    (Token.numeralKind?_eq_some found).resolve_left fun whole => pointed (parts.pointless whole)
  refine ⟨rfl, ?_⟩
  obtain ⟨places, point, written, coarsest⟩ := exists_magnitudeText_eq x
  have finer : places ≤ fraction.length := by
    by_contra! less
    exact coarsest.others _ _ (List.length_pos_iff.mpr pointed) less rounds
  have digits : (naturalDigits (point / tenPow places)).length ≤ whole.length := by
    have parted : naturalOfDigits (whole ++ fraction) / 10 ^ fraction.length =
        naturalOfDigits whole := by
      rw [naturalOfDigits_append, mul_comm, Nat.mul_add_div (by positivity),
        Nat.div_eq_of_lt (naturalOfDigits_lt parts.behind), Nat.add_zero]
    have order := div_le_div_of_roundsTo fractional coarsest.rounds rounds
    rw [parted] at order
    exact (lt_ten_pow_iff (List.length_pos_iff.mpr parts.digital.1)).mp
      (order.trans_lt (naturalOfDigits_lt parts.digital.2))
  rw [← String.length_toList, ← String.length_toList, parts.length rfl, text_of_isFinite finite,
    length_signed, written, length_positional coarsest.tried, sign]
  omega

end Binary64

/-! ## What is shown -/

/-- A text shows a number as a fraction: it is a token of its own, it is read back as the number,
and it is exact for an integer and as short as any numeral for another number. -/
structure ShownAsFraction (x : Binary64) (text : String) : Prop where
  form : IsFraction text.toList
  token : ∀ mode, Token.ofLine mode text = [⟨.float, text, 0, ⟨0, text.length⟩, .float⟩]
  sign : text.toList.head? = some '-' ↔ x.negative = true
  read : Binary64.read? text = some x
  exact : ∀ n : ℕ, x.value = n →
    text.toList = signed x.negative (naturalDigits n ++ ['.', '0'])
  shortest : (∀ n : ℕ, x.value ≠ n) → ∀ (numeral : String) (kind : TokenKind),
    Token.numeralKind? numeral.toList = some kind → Binary64.read? numeral = some x →
      kind = .float ∧ text.length ≤ numeral.length

theorem Value.display_float_shownAsFraction {x : Binary64} (finite : x.isFinite = true) :
    ShownAsFraction x (Value.float x).display := by
  have display : (Value.float x).display = x.text := rfl
  have spelled := Binary64.text_of_isFinite finite
  obtain ⟨places, point, written, coarsest⟩ := x.exists_magnitudeText_eq
  rw [display]
  have form : IsFraction x.text.toList := by
    rw [spelled, written]
    exact isFraction_signed_positional x.negative places point
  refine ⟨form, fun mode => ofLine_fraction mode form, ?_, ?_, ?_, ?_⟩
  · rw [spelled, written]
    exact head?_signed_positional x.negative places point
  · have read := Decimal.read?_positional x.negative coarsest.tried point
    rw [← written, ← spelled] at read
    exact (Binary64.read?_eq_some_iff finite read).mpr ⟨rfl, coarsest.rounds⟩
  · intro n value
    rw [spelled, Binary64.magnitudeText_of_value value]
  · intro fractional numeral kind found read
    have none : x.isIntegral = false := by
      rw [Bool.eq_false_iff]
      intro integral
      obtain ⟨n, value⟩ := Binary64.isIntegral_iff.mp integral
      exact fractional n value
    exact Binary64.length_le_of_read? finite none found read

/-- Among the largest numbers that are no integers, neighbours are half a unit apart. -/
theorem Value.display_float_shownAsFraction_of_half :
    (⟨0xC32FFFFFFFFFFFFF⟩ : Binary64).isFinite = true ∧
      (Value.float ⟨0xC32FFFFFFFFFFFFF⟩).display = "-4503599627370495.5" ∧
      ShownAsFraction ⟨0xC32FFFFFFFFFFFFF⟩ "-4503599627370495.5" := by
  have finite : (⟨0xC32FFFFFFFFFFFFF⟩ : Binary64).isFinite = true := by decide
  have display : (Value.float ⟨0xC32FFFFFFFFFFFFF⟩).display = "-4503599627370495.5" := by
    decide +kernel
  have shown := Value.display_float_shownAsFraction finite
  rw [display] at shown
  exact ⟨finite, display, shown⟩

end LineScript

import LineScript.Binary64.Reading
import LineScript.Proofs.Rounding

/-!
# Ratios and decimals are rounded to the nearest number

A ratio is scaled so that its integer part has the digits of a significand, and the quotient is
rounded.  The rounded quotient is the significand of the nearest number, or one beyond the
largest significand; then the carry into the exponent gives the right number all the same.
-/

namespace LineScript.Binary64

open LineScript.Numeral

/-! ## Quotients -/

section Ratio

variable {numerator denominator : ℕ}

theorem pow_toNat_div {base : ℚ} (nonzero : base ≠ 0) (power : ℤ) :
    base ^ power.toNat / base ^ (-power).toNat = base ^ power := by
  have exponents : (power.toNat : ℤ) - (-power).toNat = power := by omega
  rw [← zpow_natCast, ← zpow_natCast, ← zpow_sub₀ nonzero, exponents]

theorem scale_snd_pos (numerator : ℕ) (positive : 0 < denominator) (power : ℤ) :
    0 < (scale numerator denominator power).2 :=
  Nat.mul_pos positive (twoPow_pos _)

theorem scale_ratio (numerator denominator : ℕ) (power : ℤ) :
    ((scale numerator denominator power).1 / (scale numerator denominator power).2 : ℚ) =
      numerator / denominator * 2 ^ power := by
  simp only [scale, twoPow, Nat.pow_eq]
  push_cast
  rw [mul_div_mul_comm, pow_toNat_div two_ne_zero]

theorem log2_bounds {n : ℕ} (nonzero : n ≠ 0) :
    (2 : ℚ) ^ (n.log2 : ℤ) ≤ n ∧ (n : ℚ) < 2 ^ (n.log2 + 1 : ℤ) := by
  exact_mod_cast And.intro (Nat.log2_self_le nonzero) (Nat.lt_log2_self (n := n))

theorem floorLog2_bounds (nonzero : numerator ≠ 0) (positive : 0 < denominator) :
    2 ^ floorLog2 numerator denominator ≤ (numerator / denominator : ℚ) ∧
      (numerator / denominator : ℚ) < 2 ^ (floorLog2 numerator denominator + 1) := by
  have top := log2_bounds nonzero
  have bottom := log2_bounds positive.ne'
  set estimate : ℤ := (numerator.log2 : ℤ) - denominator.log2 with spelled
  have low : (2 : ℚ) ^ (estimate - 1) ≤ numerator / denominator := by
    have exponents : estimate - 1 = numerator.log2 - (denominator.log2 + 1) := by omega
    rw [exponents, zpow_sub₀ two_ne_zero]
    exact div_le_div₀ (Nat.cast_nonneg _) top.1 (by exact_mod_cast positive) bottom.2.le
  have high : (numerator / denominator : ℚ) < 2 ^ (estimate + 1) := by
    have exponents : estimate + 1 = (numerator.log2 + 1) - denominator.log2 := by omega
    rw [exponents, zpow_sub₀ two_ne_zero]
    exact div_lt_div₀ top.2 bottom.1 (by positivity) (by positivity)
  have compare :
      (scale numerator denominator (-estimate)).2 ≤ (scale numerator denominator (-estimate)).1 ↔
        2 ^ estimate ≤ (numerator / denominator : ℚ) := by
    have below : (0 : ℚ) < (scale numerator denominator (-estimate)).2 := by
      exact_mod_cast scale_snd_pos numerator positive _
    rw [← Nat.cast_le (α := ℚ), ← one_le_div below, scale_ratio, zpow_neg, ← div_eq_mul_inv,
      one_le_div (by positivity)]
  rw [floorLog2, ← spelled]
  simp only [compare]
  split
  next above => exact ⟨above, high⟩
  next below => exact ⟨low, by simpa using below⟩

/-- A rounded quotient lies within a half of the quotient, and is even if it lies a half away. -/
structure RoundedQuotient (t : ℚ) (q : ℕ) : Prop where
  lower : q - 1 / 2 < t ∨ q - 1 / 2 = t ∧ Even q
  upper : t < q + 1 / 2 ∨ t = q + 1 / 2 ∧ Even q

theorem div_eq_quotient_add_rest (numerator : ℕ) (positive : 0 < denominator) :
    (numerator / denominator : ℚ) =
      (numerator / denominator : ℕ) + (numerator % denominator : ℕ) / denominator := by
  have above : (0 : ℚ) < denominator := by exact_mod_cast positive
  have parts : (numerator : ℚ) =
      (numerator / denominator : ℕ) * denominator + (numerator % denominator : ℕ) := by
    exact_mod_cast (Nat.div_add_mod' numerator denominator).symm
  rw [div_eq_iff above.ne', add_mul, div_mul_cancel₀ _ above.ne', ← parts]

section Rest

variable (rest : ℕ) (positive : 0 < denominator)

include positive

theorem rest_lt_half_iff : (rest / denominator : ℚ) < 1 / 2 ↔ 2 * rest < denominator := by
  rw [div_lt_div_iff₀ (by exact_mod_cast positive) two_pos, one_mul, mul_comm]
  exact_mod_cast Iff.rfl

theorem half_lt_rest_iff : 1 / 2 < (rest / denominator : ℚ) ↔ denominator < 2 * rest := by
  rw [div_lt_div_iff₀ two_pos (by exact_mod_cast positive), one_mul, mul_comm]
  exact_mod_cast Iff.rfl

end Rest

theorem roundedQuotient_roundHalfEven (numerator : ℕ) (positive : 0 < denominator) :
    RoundedQuotient (numerator / denominator) (roundHalfEven numerator denominator) := by
  have least : (0 : ℚ) ≤ (numerator % denominator : ℕ) / denominator := by positivity
  have most : ((numerator % denominator : ℕ) / denominator : ℚ) < 1 := by
    rw [div_lt_one (by exact_mod_cast positive)]
    exact_mod_cast Nat.mod_lt numerator positive
  have less := rest_lt_half_iff (numerator % denominator) positive
  have more := half_lt_rest_iff (numerator % denominator) positive
  rw [div_eq_quotient_add_rest numerator positive]
  simp only [roundHalfEven]
  generalize (numerator : ℕ) / denominator = quotient
  have next : ((quotient + 1 : ℕ) : ℚ) = quotient + 1 := Nat.cast_add_one quotient
  rcases lt_trichotomy (2 * (numerator % denominator)) denominator with low | tie | high
  · rw [if_neg (by omega)]
    have small := less.mpr low
    exact ⟨.inl (by linarith), .inl (by linarith)⟩
  · have half : ((numerator % denominator : ℕ) / denominator : ℚ) = 1 / 2 :=
      le_antisymm (not_lt.mp (mt more.mp tie.not_gt)) (not_lt.mp (mt less.mp tie.not_lt))
    rw [half]
    rcases Nat.even_or_odd quotient with even | odd
    · have bit := Nat.even_iff.mp even
      rw [if_neg (by omega)]
      exact ⟨.inl (by linarith), .inr ⟨rfl, even⟩⟩
    · rw [if_pos (.inr ⟨tie, Nat.odd_iff.mp odd⟩)]
      exact ⟨.inr ⟨by linarith, odd.add_one⟩, .inl (by linarith)⟩
  · rw [if_pos (.inl high)]
    have large := more.mpr high
    exact ⟨.inl (by linarith), .inl (by linarith)⟩

end Ratio

/-! ## The nearest number to a ratio -/

namespace RoundedQuotient

variable {t : ℚ} {q n : ℕ}

theorem le_of_lt (rounded : RoundedQuotient t q) (below : t < n) : q ≤ n := by
  have close : (q : ℚ) < n + 1 := by
    rcases rounded.lower with apart | ⟨tie, -⟩ <;> linarith
  exact Nat.lt_succ_iff.mp (by exact_mod_cast close)

theorem ge_of_le (rounded : RoundedQuotient t q) (above : n ≤ t) : n ≤ q := by
  have close : (n : ℚ) < q + 1 := by
    rcases rounded.upper with apart | ⟨tie, -⟩ <;> linarith
  exact Nat.lt_succ_iff.mp (by exact_mod_cast close)

/-- A quotient in units of a gap is rounded as the rational is.  A quotient at the end of the
significands of an exponent is closer to one of its neighbours than to the other. -/
theorem roundsTo {doubled : ℕ} (rounded : RoundedQuotient t q) (small : t < (2 ^ 53 : ℕ))
    (normal : doubled = 0 ∨ (2 ^ 52 : ℕ) ≤ t) :
    RoundsTo (t * (2 ^ doubled * leastPositive)) (doubled * 2 ^ 52 + q) := by
  have positive : 0 < 2 ^ doubled * leastPositive := mul_pos (by positivity) leastPositive_pos
  have below : q ≤ 2 ^ 53 := rounded.le_of_lt small
  have above : doubled = 0 ∨ 2 ^ 52 ≤ q := normal.imp_right rounded.ge_of_le
  constructor
  · intro before same
    by_cases first : doubled ≠ 0 ∧ q = 2 ^ 52
    -- The least significand of an exponent has a neighbour of the exponent below.
    · obtain ⟨doubles, rfl⟩ := first
      have least := normal.resolve_left doubles
      have value : valueAt (before + 1) = (2 ^ 52 : ℕ) * (2 ^ doubled * leastPositive) := by
        rw [← same, valueAt_spread below above]
      have scaled := mul_le_mul_of_nonneg_right least positive.le
      exact .inl ((midpoint_lt_valueAt_succ before).trans_le (value.trans_le scaled))
    · obtain ⟨p, rfl⟩ := Nat.exists_eq_succ_of_ne_zero (show q ≠ 0 by omega)
      have rank : before = doubled * 2 ^ 52 + p := by omega
      have middle : midpoint before = ((p.succ : ℕ) - 1 / 2) * (2 ^ doubled * leastPositive) := by
        rw [rank, midpoint_spread (by omega) (by omega), Nat.cast_succ]
        ring
      rw [middle, even_spread]
      exact rounded.lower.imp (mul_lt_mul_of_pos_right · positive)
        (And.imp_left (congrArg (· * (2 ^ doubled * leastPositive))))
  · rcases Nat.lt_or_eq_of_le below with inner | rfl
    · rw [midpoint_spread inner above, even_spread]
      exact rounded.upper.imp (mul_lt_mul_of_pos_right · positive)
        (And.imp_left (congrArg (· * (2 ^ doubled * leastPositive))))
    · have value := valueAt_spread below above
      have scaled := mul_lt_mul_of_pos_right small positive
      exact .inl ((scaled.trans_eq value.symm).trans (valueAt_lt_midpoint _))

end RoundedQuotient

theorem roundsTo_zero : RoundsTo 0 0 := by
  rw [← valueAt_zero]
  exact roundsTo_valueAt 0

theorem isNearest_nearest (negative : Bool) (numerator : ℕ) {denominator : ℕ}
    (positive : 0 < denominator) :
    IsNearest negative (numerator / denominator) (nearest negative numerator denominator) := by
  rcases Nat.eq_zero_or_pos numerator with rfl | nonzero
  · refine ⟨0, ?_, rfl⟩
    rw [Nat.cast_zero, zero_div]
    exact roundsTo_zero
  · obtain ⟨low, high⟩ := floorLog2_bounds nonzero.ne' positive
    rw [nearest, if_neg nonzero.ne']
    set power := max (floorLog2 numerator denominator - 52) (-1074) with spelled
    obtain ⟨doubled, exponent⟩ : ∃ doubled : ℕ, power = doubled + -1074 :=
      ⟨(power + 1074).toNat, by omega⟩
    have count : (power + 1074).toNat = doubled := by omega
    have unit : (2 : ℚ) ^ power = 2 ^ doubled * leastPositive := by
      rw [exponent, zpow_add₀ two_ne_zero, zpow_natCast, leastPositive]
    have rounded := roundedQuotient_roundHalfEven (scale numerator denominator (-power)).1
      (scale_snd_pos numerator positive (-power))
    rw [scale_ratio] at rounded
    have small : (numerator / denominator : ℚ) * 2 ^ (-power) < (2 ^ 53 : ℕ) := by
      rw [zpow_neg, ← div_eq_mul_inv, div_lt_iff₀ (by positivity), Nat.cast_pow, Nat.cast_ofNat,
        ← zpow_natCast, ← zpow_add₀ two_ne_zero]
      exact high.trans_le (zpow_le_zpow_right₀ one_le_two (by push_cast; omega))
    have normal : doubled = 0 ∨ (2 ^ 52 : ℕ) ≤ (numerator / denominator : ℚ) * 2 ^ (-power) := by
      refine (Nat.eq_zero_or_pos doubled).imp_right fun doubles => ?_
      rw [zpow_neg, ← div_eq_mul_inv, le_div_iff₀ (by positivity), Nat.cast_pow, Nat.cast_ofNat,
        ← zpow_natCast, ← zpow_add₀ two_ne_zero]
      exact (zpow_le_zpow_right₀ one_le_two (by push_cast; omega)).trans low
    have rounds : RoundsTo _ (doubled * twoPow 52 + _) := rounded.roundsTo small normal
    rw [← unit, mul_assoc, ← zpow_add₀ two_ne_zero, neg_add_cancel, zpow_zero, mul_one] at rounds
    simp only [count]
    exact rounds.isNearest negative

theorem exists_roundsTo {v : ℚ} (nonneg : 0 ≤ v) : ∃ rank, RoundsTo v rank := by
  obtain ⟨rank, rounds, -⟩ := isNearest_nearest false v.num.toNat v.den_pos
  have top : ((v.num.toNat : ℕ) : ℚ) = v.num := by
    exact_mod_cast congrArg ((↑) : ℤ → ℚ) (Int.toNat_of_nonneg (Rat.num_nonneg.mpr nonneg))
  rw [top, Rat.num_div_den] at rounds
  exact ⟨rank, rounds⟩

end LineScript.Binary64

/-! ## Decimals -/

namespace LineScript

open Numeral

/-- What a decimal denotes, its sign apart. -/
def Numeral.Decimal.value (decimal : Decimal) : ℚ := decimal.coefficient * 10 ^ decimal.power

theorem Numeral.lt_ten_pow_iff {n length : ℕ} (positive : 0 < length) :
    n < 10 ^ length ↔ (naturalDigits n).length ≤ length :=
  (Nat.length_toDigits_le_iff (by decide) positive).symm

theorem Numeral.length_naturalDigits_pos (n : ℕ) : 0 < (naturalDigits n).length :=
  Nat.length_toDigits_pos

namespace Numeral.Decimal

/-- The digits of the coefficient and the power of ten give the order of magnitude. -/
def reach (decimal : Decimal) : ℤ := (naturalDigits decimal.coefficient).length + decimal.power

theorem value_lt (decimal : Decimal) : decimal.value < 10 ^ decimal.reach := by
  have digits : decimal.coefficient < 10 ^ (naturalDigits decimal.coefficient).length :=
    (lt_ten_pow_iff (length_naturalDigits_pos _)).mpr le_rfl
  have cast : (decimal.coefficient : ℚ) < 10 ^ (naturalDigits decimal.coefficient).length := by
    exact_mod_cast digits
  rw [value, reach, zpow_add₀ (by norm_num), zpow_natCast]
  exact mul_lt_mul_of_pos_right cast (by positivity)

theorem le_value {decimal : Decimal} (nonzero : decimal.coefficient ≠ 0) :
    10 ^ (decimal.reach - 1) ≤ decimal.value := by
  obtain ⟨others, length⟩ : ∃ others, (naturalDigits decimal.coefficient).length = others + 1 :=
    Nat.exists_eq_add_of_le' (length_naturalDigits_pos _)
  have digits : 10 ^ others ≤ decimal.coefficient := by
    rcases Nat.eq_zero_or_pos others with rfl | positive
    · exact Nat.pos_of_ne_zero nonzero
    · rw [← not_lt, lt_ten_pow_iff positive]
      omega
  have cast : (10 : ℚ) ^ others ≤ decimal.coefficient := by exact_mod_cast digits
  have exponents : decimal.reach - 1 = others + decimal.power := by
    rw [reach]
    omega
  rw [value, exponents, zpow_add₀ (by norm_num), zpow_natCast]
  exact mul_le_mul_of_nonneg_right cast (by positivity)

end Numeral.Decimal

namespace Binary64

variable {decimal : Decimal}

theorem two_pow_le_ten_pow : (2 : ℚ) ^ 1090 ≤ 10 ^ 330 :=
  calc (2 : ℚ) ^ 1090 = (2 ^ 109) ^ 10 := pow_mul 2 109 10
    _ ≤ (10 ^ 33) ^ 10 := pow_le_pow_left₀ (by positivity) (by norm_num) 10
    _ = 10 ^ 330 := (pow_mul 10 33 10).symm

theorem roundsTo_zero_of_reach (low : decimal.reach < -330) : RoundsTo decimal.value 0 where
  lower := by
    intro before same
    contradiction
  upper := by
    have middle : midpoint 0 = 2 ^ (-1075 : ℤ) := by
      have gap : gapAt 0 = leastPositive := one_mul _
      have exponents : (-1074 : ℤ) = -1075 + 1 := by norm_num
      rw [midpoint_eq, valueAt_zero, zero_add, gap, leastPositive, exponents,
        zpow_add_one₀ two_ne_zero, mul_div_cancel_right₀ _ two_ne_zero]
    refine .inl ?_
    rw [middle]
    calc decimal.value < 10 ^ decimal.reach := decimal.value_lt
      _ ≤ 10 ^ (-(330 : ℕ) : ℤ) := zpow_le_zpow_right₀ (by norm_num) (by push_cast; omega)
      _ = (10 ^ 330)⁻¹ := by rw [zpow_neg, zpow_natCast]
      _ ≤ (2 ^ 1090)⁻¹ := inv_anti₀ (by positivity) two_pow_le_ten_pow
      _ = 2 ^ (-(1090 : ℕ) : ℤ) := by rw [zpow_neg, zpow_natCast]
      _ ≤ 2 ^ (-1075 : ℤ) := zpow_le_zpow_right₀ one_le_two (by norm_num)

theorem valueAt_ceiling_le (nonzero : decimal.coefficient ≠ 0) (high : 330 < decimal.reach) :
    valueAt ceiling ≤ decimal.value := by
  have top : valueAt ceiling = 2 ^ (1024 : ℤ) := by
    have rank : ceiling = 2046 * 2 ^ 52 + 2 ^ 52 := by decide
    have exponents : (1024 : ℤ) = 52 + (2046 + -1074) := by norm_num
    rw [rank, valueAt_spread (by norm_num) (.inr le_rfl), leastPositive, exponents,
      zpow_add₀ two_ne_zero, zpow_add₀ two_ne_zero]
    norm_cast
  calc valueAt ceiling = 2 ^ (1024 : ℤ) := top
    _ ≤ 2 ^ ((1090 : ℕ) : ℤ) := zpow_le_zpow_right₀ one_le_two (by norm_num)
    _ = 2 ^ 1090 := zpow_natCast 2 1090
    _ ≤ 10 ^ 330 := two_pow_le_ten_pow
    _ = 10 ^ ((330 : ℕ) : ℤ) := (zpow_natCast 10 330).symm
    _ ≤ 10 ^ (decimal.reach - 1) := zpow_le_zpow_right₀ (by norm_num) (by push_cast; omega)
    _ ≤ decimal.value := Decimal.le_value nonzero

theorem isNearest_ofDecimal (decimal : Decimal) :
    IsNearest decimal.negative decimal.value (ofDecimal decimal) := by
  have reach : ((naturalDigits decimal.coefficient).length : ℤ) + decimal.power = decimal.reach :=
    rfl
  simp only [ofDecimal, reach]
  split
  next small =>
    refine ⟨0, ?_, rfl⟩
    rcases small with none | low
    · rw [Decimal.value, none, Nat.cast_zero, zero_mul]
      exact roundsTo_zero
    · exact roundsTo_zero_of_reach low
  next some =>
    split
    next high =>
      have positive : 0 ≤ decimal.value := by
        unfold Decimal.value
        positivity
      obtain ⟨rank, rounds⟩ := exists_roundsTo positive
      have beyond : ceiling ≤ rank :=
        (roundsTo_valueAt ceiling).le_of_le rounds (valueAt_ceiling_le (not_or.mp some).1 high)
      exact ⟨rank, rounds, by rw [min_eq_right beyond]; rfl⟩
    next =>
      have nearest := isNearest_nearest decimal.negative
        (decimal.coefficient * tenPow decimal.power.toNat) (tenPow_pos (-decimal.power).toNat)
      have ratio : ((decimal.coefficient * tenPow decimal.power.toNat : ℕ) : ℚ) /
          (tenPow (-decimal.power).toNat : ℕ) = decimal.value := by
        simp only [tenPow, Nat.pow_eq]
        push_cast
        rw [mul_div_assoc, pow_toNat_div (by norm_num), Decimal.value]
      rwa [ratio] at nearest

end Binary64

end LineScript

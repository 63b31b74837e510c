import LineScript.Binary64
import Mathlib.Algebra.Order.Field.Power
import Mathlib.Data.Rat.Cast.Order
import Mathlib.Tactic.Linarith
import Mathlib.Tactic.Positivity
import Mathlib.Tactic.Ring

/-!
# Rounding to floating-point numbers

The magnitudes of finite numbers lie on the line of rationals in the order of their bits,
which number them from zero.  A rational rounds to the magnitude between whose two midpoints
it lies, and a midpoint itself to the even one of its neighbours.  There is at most one such
magnitude, and no other lies nearer.

The numbering goes on beyond the largest finite number, as if exponents had no bound.
-/

namespace LineScript.Binary64

open LineScript.Numeral

/-! ## Magnitudes by their rank -/

/-- How often the distance between neighbours has doubled up to a rank. -/
def doublings (rank : ℕ) : ℕ := rank / 2 ^ 52 - 1

def significandAt (rank : ℕ) : ℕ := rank - doublings rank * 2 ^ 52

/-- The least positive number. -/
def leastPositive : ℚ := 2 ^ (-1074 : ℤ)

/-- The distance from a number to the next. -/
def gapAt (rank : ℕ) : ℚ := 2 ^ doublings rank * leastPositive

def valueAt (rank : ℕ) : ℚ := significandAt rank * gapAt rank

/-- The point halfway from a number to the next. -/
def midpoint (rank : ℕ) : ℚ := (valueAt rank + valueAt (rank + 1)) / 2

theorem leastPositive_pos : 0 < leastPositive := by
  unfold leastPositive
  positivity

theorem gapAt_pos (rank : ℕ) : 0 < gapAt rank :=
  mul_pos (by positivity) leastPositive_pos

theorem gapAt_eq (rank : ℕ) : gapAt rank = 2 ^ ((doublings rank : ℤ) + -1074) := by
  rw [gapAt, leastPositive, zpow_add₀ two_ne_zero, zpow_natCast]

theorem significandAt_lt (rank : ℕ) : significandAt rank < 2 ^ 53 := by
  unfold significandAt doublings
  omega

theorem doublings_or_le_significandAt (rank : ℕ) :
    doublings rank = 0 ∨ 2 ^ 52 ≤ significandAt rank := by
  unfold significandAt doublings
  omega

theorem doublings_mul_add_significandAt (rank : ℕ) :
    doublings rank * 2 ^ 52 + significandAt rank = rank := by
  unfold significandAt doublings
  omega

theorem even_spread {doubled significand : ℕ} :
    Even (doubled * 2 ^ 52 + significand) ↔ Even significand := by
  rw [Nat.even_iff, Nat.even_iff]
  omega

/-- A significand may also reach the double of the least normal one; then the rank is the first
of the next exponent and stands for the same value. -/
theorem valueAt_spread {doubled significand : ℕ} (bounded : significand ≤ 2 ^ 53)
    (normal : doubled = 0 ∨ 2 ^ 52 ≤ significand) :
    valueAt (doubled * 2 ^ 52 + significand) = significand * (2 ^ doubled * leastPositive) := by
  rcases Nat.lt_or_eq_of_le bounded with below | rfl
  · have exponent : doublings (doubled * 2 ^ 52 + significand) = doubled := by
      unfold doublings
      omega
    rw [valueAt, gapAt, significandAt, exponent, Nat.add_sub_cancel_left]
  · have exponent : doublings (doubled * 2 ^ 52 + 2 ^ 53) = doubled + 1 := by
      unfold doublings
      omega
    have rest : doubled * 2 ^ 52 + 2 ^ 53 - (doubled + 1) * 2 ^ 52 = 2 ^ 52 := by omega
    rw [valueAt, gapAt, significandAt, exponent, rest, pow_succ]
    push_cast
    ring

theorem valueAt_succ (rank : ℕ) : valueAt (rank + 1) = valueAt rank + gapAt rank := by
  have spread := doublings_mul_add_significandAt rank
  have next : valueAt (doublings rank * 2 ^ 52 + (significandAt rank + 1)) =
      (significandAt rank + 1 : ℕ) * gapAt rank :=
    valueAt_spread (significandAt_lt rank)
      ((doublings_or_le_significandAt rank).imp_right Nat.le_succ_of_le)
  rw [← Nat.add_assoc, spread] at next
  rw [next, valueAt]
  push_cast
  ring

theorem valueAt_zero : valueAt 0 = 0 := by
  simp [valueAt, significandAt]

theorem strictMono_valueAt : StrictMono valueAt := by
  apply strictMono_nat_of_lt_succ
  intro rank
  rw [valueAt_succ]
  linarith [gapAt_pos rank]

theorem gapAt_le_succ (rank : ℕ) : gapAt rank ≤ gapAt (rank + 1) := by
  have exponents : doublings rank ≤ doublings (rank + 1) := by
    unfold doublings
    omega
  have powers : (2 : ℚ) ^ doublings rank ≤ 2 ^ doublings (rank + 1) :=
    pow_le_pow_right₀ (by norm_num) exponents
  exact mul_le_mul_of_nonneg_right powers leastPositive_pos.le

theorem midpoint_eq (rank : ℕ) : midpoint rank = valueAt rank + gapAt rank / 2 := by
  rw [midpoint, valueAt_succ]
  ring

theorem midpoint_spread {doubled significand : ℕ} (bounded : significand < 2 ^ 53)
    (normal : doubled = 0 ∨ 2 ^ 52 ≤ significand) :
    midpoint (doubled * 2 ^ 52 + significand) =
      (significand + 1 / 2) * (2 ^ doubled * leastPositive) := by
  rw [midpoint, Nat.add_assoc, valueAt_spread bounded.le normal,
    valueAt_spread bounded (normal.imp_right Nat.le_succ_of_le), Nat.cast_add_one]
  ring

theorem valueAt_lt_midpoint (rank : ℕ) : valueAt rank < midpoint rank := by
  rw [midpoint_eq]
  linarith [gapAt_pos rank]

theorem midpoint_lt_valueAt_succ (rank : ℕ) : midpoint rank < valueAt (rank + 1) := by
  rw [midpoint_eq, valueAt_succ]
  linarith [gapAt_pos rank]

theorem strictMono_midpoint : StrictMono midpoint :=
  strictMono_nat_of_lt_succ fun rank =>
    (midpoint_lt_valueAt_succ rank).trans (valueAt_lt_midpoint (rank + 1))

/-! ## Rounding -/

/-- A rational lies between the midpoints around a magnitude, or is one of them and the
magnitude is even. -/
structure RoundsTo (v : ℚ) (rank : ℕ) : Prop where
  lower : ∀ before, rank = before + 1 →
    midpoint before < v ∨ midpoint before = v ∧ Even rank
  upper : v < midpoint rank ∨ v = midpoint rank ∧ Even rank

theorem roundsTo_valueAt (rank : ℕ) : RoundsTo (valueAt rank) rank where
  lower := by
    rintro before rfl
    exact .inl (midpoint_lt_valueAt_succ before)
  upper := .inl (valueAt_lt_midpoint rank)

namespace RoundsTo

variable {v w : ℚ} {m n : ℕ}

theorem le_midpoint (rounds : RoundsTo v m) : v ≤ midpoint m := by
  rcases rounds.upper with below | ⟨tie, -⟩
  · exact below.le
  · exact tie.le

theorem midpoint_le (rounds : RoundsTo v (m + 1)) : midpoint m ≤ v := by
  rcases rounds.lower m rfl with above | ⟨tie, -⟩
  · exact above.le
  · exact tie.le

theorem le_of_le (first : RoundsTo v m) (second : RoundsTo w n) (order : v ≤ w) : m ≤ n := by
  by_contra! less
  obtain ⟨before, rfl⟩ := Nat.exists_eq_succ_of_ne_zero (Nat.ne_zero_of_lt less)
  have apart : midpoint n ≤ midpoint before :=
    strictMono_midpoint.monotone (Nat.le_of_lt_succ less)
  -- Only one midpoint is left for both, and it does not round to two magnitudes.
  have squeezed : midpoint before = midpoint n :=
    le_antisymm ((first.midpoint_le.trans order).trans second.le_midpoint) apart
  have same : before = n := strictMono_midpoint.injective squeezed
  subst same
  have low : v ≤ midpoint before := order.trans second.le_midpoint
  have high : midpoint before ≤ w := first.midpoint_le.trans order
  have even : Even (before + 1) := by
    rcases first.lower before rfl with above | ⟨-, even⟩
    · exact absurd low (not_le.mpr above)
    · exact even
  have odd : Even before := by
    rcases second.upper with below | ⟨-, even⟩
    · exact absurd high (not_le.mpr below)
    · exact even
  exact Nat.even_add_one.mp even odd

theorem unique (first : RoundsTo v m) (second : RoundsTo v n) : m = n :=
  le_antisymm (first.le_of_le second le_rfl) (second.le_of_le first le_rfl)

theorem convex {a b : ℚ} (first : RoundsTo a m) (second : RoundsTo b m) (after : a ≤ v)
    (before : v ≤ b) : RoundsTo v m where
  lower := by
    intro rank same
    rcases first.lower rank same with above | ⟨tie, even⟩
    · exact .inl (above.trans_le after)
    · rcases after.lt_or_eq with less | rfl
      · exact .inl (tie.trans_lt less)
      · exact .inr ⟨tie, even⟩
  upper := by
    rcases second.upper with below | ⟨tie, even⟩
    · exact .inl (before.trans_lt below)
    · rcases before.lt_or_eq with less | rfl
      · exact .inl (less.trans_eq tie)
      · exact .inr ⟨tie, even⟩

/-- No other magnitude lies nearer, and one that lies as near gives way to an even one. -/
theorem closest (rounds : RoundsTo v m) (other : n ≠ m) :
    |v - valueAt m| < |v - valueAt n| ∨
      |v - valueAt m| = |v - valueAt n| ∧ Even m := by
  rcases Nat.lt_or_gt_of_ne other with less | greater
  · obtain ⟨before, rfl⟩ := Nat.exists_eq_succ_of_ne_zero (Nat.ne_zero_of_lt less)
    have order : valueAt n ≤ valueAt before :=
      strictMono_valueAt.monotone (Nat.le_of_lt_succ less)
    have step : valueAt before < valueAt (before + 1) :=
      strictMono_valueAt (Nat.lt_succ_self before)
    have distance := le_abs_self (v - valueAt n)
    have low := rounds.lower before rfl
    rw [midpoint] at low
    rcases low with above | ⟨tie, even⟩
    · exact .inl (abs_lt.mpr ⟨by linarith, by linarith⟩)
    · refine (abs_le.mpr ⟨?_, ?_⟩).lt_or_eq.imp_right (⟨·, even⟩) <;> linarith
  · have order : valueAt (m + 1) ≤ valueAt n :=
      strictMono_valueAt.monotone greater
    have step : valueAt m < valueAt (m + 1) :=
      strictMono_valueAt (Nat.lt_succ_self m)
    have distance := neg_le_abs (v - valueAt n)
    have high := rounds.upper
    rw [midpoint] at high
    rcases high with below | ⟨tie, even⟩
    · exact .inl (abs_lt.mpr ⟨by linarith, by linarith⟩)
    · refine (abs_le.mpr ⟨?_, ?_⟩).lt_or_eq.imp_right (⟨·, even⟩) <;> linarith

theorem abs_sub_le_half_gap (rounds : RoundsTo v m) (nonneg : 0 ≤ v) :
    |v - valueAt m| ≤ gapAt m / 2 := by
  have high := rounds.le_midpoint
  rw [midpoint_eq] at high
  rw [abs_le]
  refine ⟨?_, by linarith⟩
  cases m with
  | zero => linarith [valueAt_zero, gapAt_pos 0]
  | succ before =>
      have low := rounds.midpoint_le
      rw [midpoint_eq] at low
      linarith [valueAt_succ before, gapAt_le_succ before]

/-- An integer is rounded to an integer: where neighbours are less than a unit apart, the
integers are magnitudes themselves, and elsewhere every magnitude is an integer. -/
theorem exists_valueAt_eq_natCast {i : ℕ} (rounds : RoundsTo i m) :
    ∃ j : ℕ, valueAt m = j := by
  rcases le_or_gt 0 ((doublings m : ℤ) + -1074) with wide | narrow
  · obtain ⟨shift, exponent⟩ := Int.eq_ofNat_of_zero_le wide
    refine ⟨significandAt m * 2 ^ shift, ?_⟩
    rw [valueAt, gapAt_eq, exponent, zpow_natCast, Nat.cast_mul, Nat.cast_pow, Nat.cast_ofNat]
  · obtain ⟨shift, exponent⟩ := Int.eq_ofNat_of_zero_le (neg_nonneg_of_nonpos narrow.le)
    have parts : 2 ^ shift * gapAt m = 1 := by
      rw [gapAt_eq, ← zpow_natCast, ← zpow_add₀ two_ne_zero, ← exponent, neg_add_cancel, zpow_zero]
    have spelled : (i : ℚ) = (i * 2 ^ shift : ℕ) * gapAt m := by
      rw [Nat.cast_mul, Nat.cast_pow, Nat.cast_ofNat, mul_assoc, parts, mul_one]
    have near := rounds.abs_sub_le_half_gap (Nat.cast_nonneg i)
    have positive := gapAt_pos m
    rw [valueAt, spelled, ← sub_mul, abs_mul, abs_of_pos positive] at near
    have half : |((i * 2 ^ shift : ℕ) : ℚ) - significandAt m| ≤ 1 / 2 :=
      le_of_mul_le_mul_right (by linarith) positive
    obtain ⟨below, above⟩ := abs_sub_lt_iff.mp (half.trans_lt one_half_lt_one)
    have less : i * 2 ^ shift < 1 + significandAt m := by
      exact_mod_cast sub_lt_iff_lt_add.mp below
    have more : significandAt m < 1 + i * 2 ^ shift := by
      exact_mod_cast sub_lt_iff_lt_add.mp above
    have significand : significandAt m = i * 2 ^ shift := by omega
    exact ⟨i, by rw [valueAt, significand, ← spelled]⟩

end RoundsTo

/-! ## Finite numbers by sign and rank -/

/-- The bits of a number without its sign. -/
def rank (x : Binary64) : ℕ := x.bits.toNat % 2 ^ 63

/-- What a finite number denotes, its sign apart. -/
def value (x : Binary64) : ℚ := x.significand * 2 ^ x.exponent

/-- The first rank that no finite number has. -/
def ceiling : ℕ := specialExponent * twoPow 52

theorem exponentField_eq (x : Binary64) : x.exponentField = x.rank / 2 ^ 52 := by
  simp only [exponentField, twoPow, rank, Nat.pow_eq]
  omega

theorem fractionField_eq (x : Binary64) : x.fractionField = x.rank % 2 ^ 52 := by
  simp only [fractionField, twoPow, rank, Nat.pow_eq]
  omega

theorem significand_eq (x : Binary64) : x.significand = significandAt x.rank := by
  rw [significand, exponentField_eq, fractionField_eq, significandAt, doublings]
  simp only [twoPow, Nat.pow_eq]
  split <;> omega

theorem exponent_eq (x : Binary64) : x.exponent = (doublings x.rank : ℤ) + -1074 := by
  rw [exponent, exponentField_eq, doublings]
  omega

theorem value_eq (x : Binary64) : x.value = valueAt x.rank := by
  rw [value, significand_eq, exponent_eq, valueAt, gapAt_eq]

theorem isFinite_iff (x : Binary64) : x.isFinite = true ↔ x.rank < ceiling := by
  have bound : x.rank < 2 ^ 63 := Nat.mod_lt _ (by positivity)
  rw [isFinite, bne_iff_ne, exponentField_eq, ceiling, specialExponent]
  simp only [twoPow, Nat.pow_eq]
  omega

theorem ofMagnitude_rank (x : Binary64) : ofMagnitude x.negative x.rank = x := by
  have bits : (if x.negative then twoPow 63 + x.rank else x.rank) = x.bits.toNat := by
    have bound := x.bits.toNat_lt
    have sign : x.negative = decide (2 ^ 63 ≤ x.bits.toNat) := rfl
    rw [sign, rank, twoPow, Nat.pow_eq]
    by_cases high : 2 ^ 63 ≤ x.bits.toNat
    · rw [if_pos (decide_eq_true high)]
      omega
    · rw [if_neg (by simpa using high)]
      omega
  rw [ofMagnitude, bits, UInt64.ofNat_toNat]

theorem toNat_ofMagnitude (negative : Bool) {magnitude : ℕ} (bound : magnitude < 2 ^ 63) :
    (ofMagnitude negative magnitude).bits.toNat =
      if negative then 2 ^ 63 + magnitude else magnitude := by
  apply UInt64.toNat_ofNat_of_lt'
  simp only [twoPow, Nat.pow_eq, UInt64.size]
  split <;> omega

theorem negative_ofMagnitude (negative : Bool) {magnitude : ℕ} (bound : magnitude < 2 ^ 63) :
    (ofMagnitude negative magnitude).negative = negative := by
  rw [Binary64.negative, toNat_ofMagnitude negative bound]
  simp only [twoPow, Nat.pow_eq]
  cases negative with
  | false => simpa using bound
  | true => simp

theorem rank_ofMagnitude (negative : Bool) {magnitude : ℕ} (bound : magnitude < 2 ^ 63) :
    (ofMagnitude negative magnitude).rank = magnitude := by
  rw [rank, toNat_ofMagnitude negative bound]
  split <;> omega

/-- The number that a rational and a sign are rounded to.  What lies beyond the largest finite
number is infinite. -/
def IsNearest (negative : Bool) (v : ℚ) (x : Binary64) : Prop :=
  ∃ rank, RoundsTo v rank ∧ x = ofMagnitude negative (min rank ceiling)

theorem RoundsTo.isNearest {v : ℚ} {rank : ℕ} (rounds : RoundsTo v rank) (negative : Bool) :
    IsNearest negative v
      (if rank < ceiling then ofMagnitude negative rank else infinity negative) := by
  refine ⟨rank, rounds, ?_⟩
  split
  next inside => rw [min_eq_left inside.le]
  next beyond => rw [min_eq_right (not_lt.mp beyond)]; rfl

theorem IsNearest.eq_iff {negative : Bool} {v : ℚ} {x y : Binary64}
    (nearest : IsNearest negative v y) (finite : x.isFinite = true) : y = x ↔ x.negative = negative ∧ RoundsTo v x.rank := by
  have low := (isFinite_iff x).mp finite
  have bound : ∀ rank, min rank ceiling < 2 ^ 63 := by
    intro rank
    have top : ceiling < 2 ^ 63 := by decide
    omega
  obtain ⟨rank, rounds, rfl⟩ := nearest
  constructor
  · rintro rfl
    rw [rank_ofMagnitude negative (bound rank)] at low ⊢
    have same : min rank ceiling = rank := by omega
    rw [negative_ofMagnitude negative (bound rank), same]
    exact ⟨rfl, rounds⟩
  · rintro ⟨rfl, other⟩
    rw [rounds.unique other, min_eq_left low.le, ofMagnitude_rank]

end LineScript.Binary64

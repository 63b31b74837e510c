import LineScript.Binary64.Writing
import LineScript.Proofs.Rounding.Nearest
import Mathlib.Tactic.FieldSimp

/-!
# The shortest fraction of a number

A number is written on the coarsest decimal grid with a point that is rounded to it.  The points
tried on a grid are the two next to the number: the rationals rounded to a number have no gaps,
so if neither of the two is rounded to it, no point of the grid is.
-/

namespace LineScript.Binary64

open LineScript.Numeral

variable {x : Binary64}

/-! ## Integers -/

theorem value_eq_natCast_iff {n : ℕ} :
    x.value = n ↔
      x.significand * twoPow x.exponent.toNat = n * twoPow (-x.exponent).toNat := by
  have positive : (0 : ℚ) < 2 ^ (-x.exponent).toNat := by positivity
  rw [value, ← pow_toNat_div two_ne_zero, ← mul_div_assoc, div_eq_iff positive.ne']
  simp only [twoPow, Nat.pow_eq]
  exact_mod_cast Iff.rfl

theorem wholePart_eq {n : ℕ} (integral : x.value = n) : x.wholePart = n := by
  rw [wholePart, value_eq_natCast_iff.mp integral, Nat.mul_div_cancel _ (twoPow_pos _)]

theorem isIntegral_iff : x.isIntegral = true ↔ ∃ n : ℕ, x.value = n := by
  simp only [isIntegral, beq_iff_eq, value_eq_natCast_iff]
  constructor
  · intro rest
    obtain ⟨whole, factors⟩ := Nat.dvd_of_mod_eq_zero rest
    exact ⟨whole * twoPow x.exponent.toNat, by rw [factors]; ring⟩
  · rintro ⟨n, same⟩
    rcases le_total 0 x.exponent with high | low
    · have none : (-x.exponent).toNat = 0 := by omega
      rw [none]
      exact Nat.mod_one _
    · have none : x.exponent.toNat = 0 := by omega
      rw [none] at same
      have factors : x.significand = n * twoPow (-x.exponent).toNat :=
        (Nat.mul_one _).symm.trans same
      rw [factors, Nat.mul_mod_left]

/-! ## The interval of a number -/

theorem middle_eq (x : Binary64) :
    x.roundingInterval.middle * 2 ^ x.roundingInterval.unit = x.value := by
  simp only [roundingInterval, value, zpow_sub₀ (two_ne_zero (α := ℚ))]
  push_cast
  ring

theorem high_eq (x : Binary64) :
    x.roundingInterval.high * 2 ^ x.roundingInterval.unit = midpoint x.rank := by
  rw [midpoint_eq, ← value_eq, gapAt_eq, ← exponent_eq, value]
  simp only [roundingInterval, zpow_sub₀ (two_ne_zero (α := ℚ))]
  push_cast
  ring

/-- Below a power of two the gap is half of the gap above it. -/
theorem gapAt_before {before : ℕ} (rank : x.rank = before + 1) :
    gapAt before =
      (if x.fractionField = 0 ∧ 1 < x.exponentField then 1 else 2 : ℕ) * gapAt x.rank / 2 := by
  rw [fractionField_eq, exponentField_eq]
  split
  next first =>
    have doubled : doublings x.rank = doublings before + 1 := by
      unfold doublings
      omega
    rw [gapAt, gapAt, doubled, pow_succ]
    push_cast
    ring
  next inner =>
    have same : doublings x.rank = doublings before := by
      unfold doublings
      omega
    rw [gapAt, gapAt, same]
    push_cast
    ring

theorem low_eq {before : ℕ} (rank : x.rank = before + 1) :
    x.roundingInterval.low * 2 ^ x.roundingInterval.unit = midpoint before := by
  have significand : 1 ≤ x.significand := by
    rw [significand_eq, rank, significandAt, doublings]
    omega
  have step := valueAt_succ before
  rw [← rank, ← value_eq, value, exponent_eq, ← gapAt_eq] at step
  have middle : midpoint before = x.significand * gapAt x.rank - gapAt before / 2 := by
    rw [midpoint_eq]
    linarith
  rw [middle, gapAt_before rank]
  simp only [roundingInterval, zpow_sub₀ (two_ne_zero (α := ℚ)), exponent_eq, ← gapAt_eq]
  rw [Nat.cast_sub (by split <;> omega)]
  push_cast
  ring

theorem closed_iff (x : Binary64) : x.roundingInterval.closed = true ↔ Even x.rank := by
  rw [← doublings_mul_add_significandAt x.rank, even_spread, ← significand_eq]
  simp only [roundingInterval, beq_iff_eq, Nat.even_iff]

/-! ## Points of a decimal grid -/

/-- The point that a natural numbers on the grid of so many fraction digits. -/
def gridPoint (places point : ℕ) : ℚ := point / 10 ^ places

section Grid

variable {units point places : ℕ} {unit : ℤ}

theorem strictMono_gridPoint (places : ℕ) : StrictMono (gridPoint places) := by
  intro first second less
  exact div_lt_div_of_pos_right (by exact_mod_cast less) (by positivity)

/-- A multiple of a unit and a grid point, over a common denominator. -/
theorem common_denominator (units point places : ℕ) (unit : ℤ) :
    ((units * (tenPow places * twoPow unit.toNat) : ℕ) : ℚ) =
        units * 2 ^ unit * (10 ^ places * 2 ^ (-unit).toNat) ∧
      ((point * twoPow (-unit).toNat : ℕ) : ℚ) =
        gridPoint places point * (10 ^ places * 2 ^ (-unit).toNat) := by
  have ten : (0 : ℚ) < 10 ^ places := by positivity
  have two : (0 : ℚ) < 2 ^ (-unit).toNat := by positivity
  constructor
  · rw [← pow_toNat_div two_ne_zero]
    simp only [tenPow, twoPow, Nat.pow_eq]
    push_cast
    field_simp
  · simp only [gridPoint, twoPow, Nat.pow_eq]
    push_cast
    field_simp

theorem units_lt_iff :
    units * (tenPow places * twoPow unit.toNat) < point * twoPow (-unit).toNat ↔
      (units : ℚ) * 2 ^ unit < gridPoint places point := by
  obtain ⟨left, right⟩ := common_denominator units point places unit
  rw [← Nat.cast_lt (α := ℚ), left, right, mul_lt_mul_iff_left₀ (by positivity)]

theorem lt_units_iff :
    point * twoPow (-unit).toNat < units * (tenPow places * twoPow unit.toNat) ↔
      gridPoint places point < (units : ℚ) * 2 ^ unit := by
  obtain ⟨left, right⟩ := common_denominator units point places unit
  rw [← Nat.cast_lt (α := ℚ), left, right, mul_lt_mul_iff_left₀ (by positivity)]

theorem units_eq_iff :
    units * (tenPow places * twoPow unit.toNat) = point * twoPow (-unit).toNat ↔
      (units : ℚ) * 2 ^ unit = gridPoint places point := by
  obtain ⟨left, right⟩ := common_denominator units point places unit
  have positive : (10 : ℚ) ^ places * 2 ^ (-unit).toNat ≠ 0 := by positivity
  rw [← Nat.cast_inj (R := ℚ), left, right, mul_left_inj' positive]

end Grid

/-! ## The points next to a number -/

namespace RoundingInterval

def factor (interval : RoundingInterval) (places : ℕ) : ℕ :=
  tenPow places * twoPow interval.unit.toNat

def denominator (interval : RoundingInterval) : ℕ := twoPow (-interval.unit).toNat

/-- The number of the last grid point that is not above the middle. -/
def pointBelow (interval : RoundingInterval) (places : ℕ) : ℕ :=
  interval.middle * interval.factor places / interval.denominator

/-- Whether a grid point lies above the low end. -/
def isAboveLow (interval : RoundingInterval) (places point : ℕ) : Bool :=
  interval.low * interval.factor places < point * interval.denominator ||
    (interval.closed && interval.low * interval.factor places == point * interval.denominator)

/-- Whether a grid point lies below the high end. -/
def isBelowHigh (interval : RoundingInterval) (places point : ℕ) : Bool :=
  point * interval.denominator < interval.high * interval.factor places ||
    (interval.closed && point * interval.denominator == interval.high * interval.factor places)

theorem candidate?_eq (interval : RoundingInterval) (places : ℕ) :
    interval.candidate? places =
      let down := interval.pointBelow places
      let rest := interval.middle * interval.factor places % interval.denominator
      if interval.isAboveLow places down && interval.isBelowHigh places (down + 1) then
        if 2 * rest < interval.denominator then some down else some (down + 1)
      else if interval.isAboveLow places down then some down
      else if interval.isBelowHigh places (down + 1) then some (down + 1)
      else none :=
  rfl

end RoundingInterval

section Candidate

variable {before point places : ℕ}

theorem gridPoint_pointBelow_le (x : Binary64) (places : ℕ) :
    gridPoint places (x.roundingInterval.pointBelow places) ≤ x.value := by
  rw [← middle_eq x, ← not_lt, ← units_lt_iff, not_lt]
  exact Nat.div_mul_le_self _ _

theorem lt_gridPoint_pointBelow_succ (x : Binary64) (places : ℕ) :
    x.value < gridPoint places (x.roundingInterval.pointBelow places + 1) := by
  rw [← middle_eq x, ← units_lt_iff]
  exact Nat.lt_mul_of_div_lt (Nat.lt_succ_self _) (twoPow_pos _)

theorem isAboveLow_iff (rank : x.rank = before + 1) (below : gridPoint places point ≤ x.value) :
    x.roundingInterval.isAboveLow places point = true ↔
      RoundsTo (gridPoint places point) x.rank := by
  simp only [RoundingInterval.isAboveLow, RoundingInterval.factor, RoundingInterval.denominator,
    Bool.or_eq_true, Bool.and_eq_true, decide_eq_true_eq, beq_iff_eq, units_lt_iff, units_eq_iff,
    low_eq rank, closed_iff]
  constructor
  · intro inside
    refine ⟨fun other same => ?_, .inl ?_⟩
    · obtain rfl : other = before := by omega
      exact inside.imp_right And.symm
    · rw [value_eq] at below
      exact below.trans_lt (valueAt_lt_midpoint _)
  · intro rounds
    exact (rounds.lower before rank).imp_right And.symm

theorem isBelowHigh_iff (above : x.value ≤ gridPoint places point) :
    x.roundingInterval.isBelowHigh places point = true ↔
      RoundsTo (gridPoint places point) x.rank := by
  simp only [RoundingInterval.isBelowHigh, RoundingInterval.factor, RoundingInterval.denominator,
    Bool.or_eq_true, Bool.and_eq_true, decide_eq_true_eq, beq_iff_eq, lt_units_iff,
    eq_comm (a := point * _), units_eq_iff, high_eq, closed_iff]
  constructor
  · intro inside
    refine ⟨fun other same => .inl ?_, inside.imp_right fun ⟨even, tie⟩ => ⟨tie.symm, even⟩⟩
    have next := midpoint_lt_valueAt_succ other
    rw [← same, ← value_eq] at next
    exact next.trans_le above
  · intro rounds
    exact rounds.upper.imp_right fun ⟨tie, even⟩ => ⟨even, tie.symm⟩

theorem roundsTo_of_candidate? (rank : x.rank = before + 1)
    (found : x.roundingInterval.candidate? places = some point) :
    RoundsTo (gridPoint places point) x.rank := by
  have down := isAboveLow_iff rank (gridPoint_pointBelow_le x places)
  have up := isBelowHigh_iff (lt_gridPoint_pointBelow_succ x places).le
  simp only [RoundingInterval.candidate?_eq] at found
  split at found
  next both =>
    rw [Bool.and_eq_true, down, up] at both
    split at found <;> cases found
    · exact both.1
    · exact both.2
  split at found
  next below =>
    cases found
    exact down.mp below
  split at found
  next above =>
    cases found
    exact up.mp above
  contradiction

/-- Between a point that is rounded to a number and the number lies one of the two points next
to the number. -/
theorem not_roundsTo_of_candidate? (rank : x.rank = before + 1)
    (none : x.roundingInterval.candidate? places = none) (point : ℕ) :
    ¬ RoundsTo (gridPoint places point) x.rank := by
  intro rounds
  have down := isAboveLow_iff rank (gridPoint_pointBelow_le x places)
  have up := isBelowHigh_iff (lt_gridPoint_pointBelow_succ x places).le
  have middle : RoundsTo x.value x.rank := by
    rw [value_eq]
    exact roundsTo_valueAt x.rank
  have found : x.roundingInterval.isAboveLow places (x.roundingInterval.pointBelow places) = true ∨
      x.roundingInterval.isBelowHigh places (x.roundingInterval.pointBelow places + 1) = true := by
    rcases Nat.lt_or_ge (x.roundingInterval.pointBelow places) point with above | below
    · have order := (strictMono_gridPoint places).monotone (Nat.succ_le_of_lt above)
      exact .inr (up.mpr (middle.convex rounds (lt_gridPoint_pointBelow_succ x places).le order))
    · have order := (strictMono_gridPoint places).monotone below
      exact .inl (down.mpr (rounds.convex middle order (gridPoint_pointBelow_le x places)))
  simp only [RoundingInterval.candidate?_eq] at none
  split_ifs at none with both nearer below above
  exact found.elim below above

end Candidate

/-! ## The coarsest grid -/

/-- A point is rounded to a number, and on the grids tried before there is none that is. -/
structure IsCoarsest (x : Binary64) (first places point : ℕ) : Prop where
  rounds : RoundsTo (gridPoint places point) x.rank
  tried : first ≤ places
  others : ∀ fewer other, first ≤ fewer → fewer < places → ¬ RoundsTo (gridPoint fewer other) x.rank

theorem isCoarsest_fewestPlaces {before : ℕ} (rank : x.rank = before + 1) (attempts places : ℕ)
    (last : ∃ point, x.value = gridPoint (places + attempts) point) :
    IsCoarsest x places (x.roundingInterval.fewestPlaces places attempts).1
      (x.roundingInterval.fewestPlaces places attempts).2 := by
  induction attempts generalizing places with
  | zero =>
      obtain ⟨point, same⟩ := last
      rw [Nat.add_zero] at same
      have exact : x.roundingInterval.middle * x.roundingInterval.factor places =
          point * x.roundingInterval.denominator := by
        rw [RoundingInterval.factor, RoundingInterval.denominator, units_eq_iff, middle_eq, same]
      have written : x.roundingInterval.fewestPlaces places 0 =
          (places, x.roundingInterval.pointBelow places) := rfl
      have quotient : x.roundingInterval.pointBelow places = point := by
        rw [RoundingInterval.pointBelow, exact]
        exact Nat.mul_div_cancel _ (twoPow_pos _)
      rw [written, quotient]
      refine ⟨?_, le_rfl, fun fewer other low high => absurd high (not_lt.mpr low)⟩
      show RoundsTo (gridPoint places point) x.rank
      rw [← same, value_eq]
      exact roundsTo_valueAt x.rank
  | succ attempts ih =>
      rw [RoundingInterval.fewestPlaces]
      cases candidate : x.roundingInterval.candidate? places with
      | some point =>
          exact ⟨roundsTo_of_candidate? rank candidate, le_rfl,
            fun fewer other low high => absurd high (not_lt.mpr low)⟩
      | none =>
          obtain ⟨rounds, tried, others⟩ := ih (places + 1) (by rwa [Nat.add_assoc, Nat.add_comm 1])
          refine ⟨rounds, Nat.le_of_succ_le tried, fun fewer other low high => ?_⟩
          rcases Nat.lt_or_eq_of_le low with later | rfl
          · exact others fewer other later high
          · exact not_roundsTo_of_candidate? rank candidate other

/-- A number has as many fraction digits as binary ones. -/
theorem exists_value_eq_gridPoint (x : Binary64) :
    ∃ point, x.value = gridPoint (1 + (-x.exponent).toNat) point := by
  refine ⟨x.significand * 2 ^ x.exponent.toNat * (10 * 5 ^ (-x.exponent).toNat), ?_⟩
  have factors : (10 : ℚ) ^ (-x.exponent).toNat =
      2 ^ (-x.exponent).toNat * 5 ^ (-x.exponent).toNat := by
    rw [← mul_pow]
    norm_num
  rw [value, ← pow_toNat_div two_ne_zero, gridPoint, pow_add, factors]
  push_cast
  field_simp

/-- A number that is no integer is written with the fewest fraction digits, at least one. -/
theorem isCoarsest_of_not_isIntegral (fractional : x.isIntegral = false) :
    IsCoarsest x 1 (x.roundingInterval.fewestPlaces 1 (-x.exponent).toNat).1
      (x.roundingInterval.fewestPlaces 1 (-x.exponent).toNat).2 := by
  have nonzero : x.rank ≠ 0 := by
    intro none
    have integral : x.value = (0 : ℕ) := by rw [value_eq, none, valueAt_zero, Nat.cast_zero]
    rw [isIntegral_iff.mpr ⟨0, integral⟩] at fractional
    contradiction
  obtain ⟨before, rank⟩ := Nat.exists_eq_succ_of_ne_zero nonzero
  exact isCoarsest_fewestPlaces rank _ _ (exists_value_eq_gridPoint x)

end LineScript.Binary64

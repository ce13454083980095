import Deferral.Proofs.Number.Rounding
import Mathlib.Algebra.Order.Floor.Semifield
import Mathlib.Data.Rat.Floor

/-!
# The digits of a double identify it

The decimal that is written for a double lies in the interval of numbers that round to the double:
among the grids of decimals that are looked at the last one is finer than the interval is long.
-/

namespace Deferral.Double

section Intervals

variable {double : Double}

/-- The ends of the interval over a common denominator are those of the interval around the double.
-/
theorem rounding_spec (positive : 0 < double.significand) :
    0 < double.rounding.denominator ∧
      (double.rounding.low : ℚ) / double.rounding.denominator =
        (double.significand - double.below / 4) * 2 ^ double.exponent ∧
      (double.rounding.value : ℚ) / double.rounding.denominator = double.magnitude ∧
      (double.rounding.high : ℚ) / double.rounding.denominator =
        (double.significand + 1 / 2) * 2 ^ double.exponent ∧
      (double.rounding.closed = true ↔ double.significand % 2 = 0) := by
  have factor_spec : ∃ factor denominator : Nat, 0 < denominator ∧
      (factor : ℚ) / denominator = 2 ^ (double.exponent - 2) ∧
      double.rounding = ⟨(4 * double.significand - double.below) * factor,
        4 * double.significand * factor,
        (4 * double.significand + 2) * factor, denominator, double.significand % 2 = 0⟩ := by
    cases exponent_eq : double.exponent - 2 with
    | ofNat power =>
        refine ⟨Nat.pow 2 power, 1, by decide, ?_, ?_⟩
        · rw [cast_pow]
          simp
        · simp only [rounding, exponent_eq]
          rfl
    | negSucc power =>
        refine ⟨1, Nat.pow 2 (power + 1), Nat.pow_pos (by decide), ?_, ?_⟩
        · rw [cast_pow, zpow_negSucc]
          simp
        · simp only [rounding, exponent_eq]
          rfl
  rcases factor_spec with ⟨factor, denominator, denominator_pos, factor_eq, rounding_eq⟩
  have below_le : double.below ≤ 4 * double.significand := by
    unfold below
    split <;> omega
  have scaled (numerator : ℚ) : numerator * factor / denominator =
      numerator / 4 * 2 ^ double.exponent := by
    rw [mul_div_assoc, factor_eq, zpow_sub₀ two_ne_zero]
    norm_num
    ring
  rw [rounding_eq]
  refine ⟨denominator_pos, ?_, ?_, ?_, by simp⟩
  · push_cast [below_le]
    rw [scaled]
    ring
  · push_cast
    rw [scaled, magnitude]
    ring
  · push_cast
    rw [scaled]
    ring

theorem div_le_div_iff {first second third fourth : Nat} (positive : 0 < second)
    (positive' : 0 < fourth) :
    (first : ℚ) / second ≤ third / fourth ↔ first * fourth ≤ third * second := by
  have positive : (0 : ℚ) < second := by exact_mod_cast positive
  have positive' : (0 : ℚ) < fourth := by exact_mod_cast positive'
  rw [div_le_div_iff₀ positive positive']
  exact_mod_cast Iff.rfl

theorem div_lt_div_iff {first second third fourth : Nat} (positive : 0 < second)
    (positive' : 0 < fourth) :
    (first : ℚ) / second < third / fourth ↔ first * fourth < third * second := by
  rw [← not_le, div_le_div_iff positive' positive, not_le]

theorem contains_iff (positive : 0 < double.significand) (numerator : Nat) {denominator : Nat}
    (positive' : 0 < denominator) :
    double.rounding.contains numerator denominator = true ↔
      double.Identifies (numerator / denominator) := by
  rcases rounding_spec positive with ⟨denominator_pos, low_eq, _, high_eq, closed_iff⟩
  have low_le : double.rounding.low * denominator ≤ numerator * double.rounding.denominator ↔
      (double.significand - double.below / 4) * (2 : ℚ) ^ double.exponent ≤
        numerator / denominator := by
    rw [← low_eq, div_le_div_iff denominator_pos positive']
  have low_lt : double.rounding.low * denominator < numerator * double.rounding.denominator ↔
      (double.significand - double.below / 4) * (2 : ℚ) ^ double.exponent <
        numerator / denominator := by
    rw [← low_eq, div_lt_div_iff denominator_pos positive']
  have le_high : numerator * double.rounding.denominator ≤ double.rounding.high * denominator ↔
      (numerator / denominator : ℚ) ≤ (double.significand + 1 / 2) * 2 ^ double.exponent := by
    rw [← high_eq, div_le_div_iff positive' denominator_pos]
  have lt_high : numerator * double.rounding.denominator < double.rounding.high * denominator ↔
      (numerator / denominator : ℚ) < (double.significand + 1 / 2) * 2 ^ double.exponent := by
    rw [← high_eq, div_lt_div_iff positive' denominator_pos]
  rw [Rounding.contains]
  split
  · rename_i closed
    simp only [Bool.and_eq_true, decide_eq_true_eq, low_le, le_high]
    exact ⟨fun ⟨low, high⟩ => ⟨low, high, .inl (closed_iff.mp closed)⟩,
      fun identifies => ⟨identifies.low, identifies.high⟩⟩
  · rename_i open'
    simp only [Bool.and_eq_true, decide_eq_true_eq, low_lt, lt_high]
    exact ⟨fun ⟨low, high⟩ => ⟨low.le, high.le, .inr ⟨low, high⟩⟩,
      fun identifies => identifies.even.resolve_left fun even => open' (closed_iff.mpr even)⟩

end Intervals

/-- The number that a decimal stands for. -/
def Decimal.value (decimal : Decimal) : ℚ := decimal.digits * 10 ^ decimal.exponent

section Decimals

variable {double : Double}

theorem fractionOf_spec (decimal : Decimal) :
    0 < (Rounding.fractionOf decimal).2 ∧
      valueOf (Rounding.fractionOf decimal) = decimal.value := by
  rcases decimal with ⟨digits, exponent⟩
  cases exponent with
  | ofNat power =>
      refine ⟨Nat.one_pos, ?_⟩
      simp [Rounding.fractionOf, valueOf, Decimal.value]
  | negSucc power =>
      refine ⟨Nat.pow_pos (by decide), ?_⟩
      simp [Rounding.fractionOf, valueOf, Decimal.value, div_eq_mul_inv, zpow_negSucc]

theorem contains_decimal_iff (positive : 0 < double.significand) (decimal : Decimal) :
    double.rounding.contains (Rounding.fractionOf decimal).1 (Rounding.fractionOf decimal).2 =
      true ↔
      double.Identifies decimal.value := by
  rcases fractionOf_spec decimal with ⟨denominator_pos, value_eq⟩
  rw [contains_iff positive _ denominator_pos, ← value_eq, valueOf]

/-- The value of a double is held against a power of ten. -/
theorem reaches_iff (positive : 0 < double.significand) (exponent : Int) :
    double.rounding.reaches exponent = true ↔ (10 : ℚ) ^ exponent ≤ double.magnitude := by
  rcases rounding_spec positive with ⟨denominator_pos, _, value_eq, _⟩
  rcases fractionOf_spec ⟨1, exponent⟩ with ⟨denominator_pos', power_eq⟩
  have power_eq : valueOf (Rounding.fractionOf ⟨1, exponent⟩) = (10 : ℚ) ^ exponent := by
    rw [power_eq, Decimal.value, Nat.cast_one, one_mul]
  rw [← value_eq, ← power_eq, valueOf, div_le_div_iff denominator_pos' denominator_pos,
    Rounding.reaches]
  simp

theorem unitsOf_spec (positive : 0 < double.significand) (exponent : Int) :
    0 < (double.rounding.unitsOf exponent).2 ∧
      valueOf (double.rounding.unitsOf exponent) = double.magnitude / 10 ^ exponent := by
  rcases rounding_spec positive with ⟨denominator_pos, _, value_eq, _⟩
  cases exponent with
  | ofNat power =>
      refine ⟨Nat.mul_pos denominator_pos (Nat.pow_pos (by decide)), ?_⟩
      simp only [Rounding.unitsOf, valueOf, Nat.cast_mul, cast_pow, ← div_div, value_eq]
      simp
  | negSucc power =>
      refine ⟨denominator_pos, ?_⟩
      simp only [Rounding.unitsOf, valueOf, Nat.cast_mul, cast_pow, mul_div_right_comm, value_eq,
        zpow_negSucc]
      simp

end Decimals

section Grids

variable {double : Double} {exponent : Int} {decimal : Decimal}

theorem magnitude_nonneg (double : Double) : 0 ≤ double.magnitude := by
  unfold magnitude
  positivity

theorem floor_eq (positive : 0 < double.significand) (exponent : Int) :
    (double.rounding.unitsOf exponent).1 / (double.rounding.unitsOf exponent).2 =
      ⌊double.magnitude / 10 ^ exponent⌋₊ := by
  rw [← (unitsOf_spec positive exponent).2, valueOf, Nat.floor_div_eq_div]

/-- The neighbour of a double below it, on the grid of the multiples of a power of ten. -/
def lowerOn (double : Double) (exponent : Int) : Decimal :=
  ⟨⌊double.magnitude / 10 ^ exponent⌋₊, exponent⟩

/-- The first decimal with an exponent above a double. -/
def upperOn (double : Double) (exponent : Int) : Decimal :=
  ⟨⌊double.magnitude / 10 ^ exponent⌋₊ + 1, exponent⟩

/-- A double lies between its neighbours on a grid. -/
theorem neighbours_spec (double : Double) (exponent : Int) :
    (double.lowerOn exponent).value ≤ double.magnitude ∧
      double.magnitude < (double.upperOn exponent).value ∧
      (double.upperOn exponent).value = (double.lowerOn exponent).value + 10 ^ exponent := by
  have power_pos : (0 : ℚ) < 10 ^ exponent := by positivity
  have nonneg : 0 ≤ double.magnitude / 10 ^ exponent :=
    div_nonneg double.magnitude_nonneg power_pos.le
  simp only [Decimal.value, lowerOn, upperOn, Nat.cast_add, Nat.cast_one]
  refine ⟨(le_div_iff₀ power_pos).mp (Nat.floor_le nonneg),
    (div_lt_iff₀ power_pos).mp (Nat.lt_floor_add_one _), by ring⟩

/-- What is taken from a grid is a neighbour that identifies the double, and one is taken if there
is one. -/
theorem onGrid?_spec (positive : 0 < double.significand) (exponent : Int) :
    (∀ decimal, double.rounding.onGrid? exponent = some decimal →
      double.Identifies decimal.value ∧
        (decimal = double.lowerOn exponent ∨ decimal = double.upperOn exponent)) ∧
    (double.rounding.onGrid? exponent = none →
      ¬ double.Identifies (double.lowerOn exponent).value ∧
        ¬ double.Identifies (double.upperOn exponent).value) := by
  have floor_eq := floor_eq positive exponent
  have lower_iff := contains_decimal_iff positive (double.lowerOn exponent)
  have upper_iff := contains_decimal_iff positive (double.upperOn exponent)
  unfold Rounding.onGrid?
  generalize double.rounding.unitsOf exponent = units at floor_eq
  rcases units with ⟨numerator, denominator⟩
  have lower_eq : Decimal.mk (numerator / denominator) exponent = double.lowerOn exponent :=
    congrArg (Decimal.mk · exponent) floor_eq
  have upper_eq : Decimal.mk (numerator / denominator + 1) exponent = double.upperOn exponent :=
    congrArg (fun digits => Decimal.mk (digits + 1) exponent) floor_eq
  rw [← lower_eq] at lower_iff ⊢
  rw [← upper_eq] at upper_iff ⊢
  dsimp only
  generalize nearer_eq : (if 2 * (numerator % denominator) < denominator then
      Decimal.mk (numerator / denominator) exponent
    else if denominator < 2 * (numerator % denominator) then
      Decimal.mk (numerator / denominator + 1) exponent
    else if numerator / denominator % 2 = 0 then Decimal.mk (numerator / denominator) exponent
    else Decimal.mk (numerator / denominator + 1) exponent) = nearer
  have nearer_is : nearer = ⟨numerator / denominator, exponent⟩ ∨
      nearer = ⟨numerator / denominator + 1, exponent⟩ := by
    rw [← nearer_eq]
    split_ifs <;> simp
  split_ifs with both lower_back upper_back
  · rw [Bool.and_eq_true, lower_iff, upper_iff] at both
    refine ⟨?_, by simp⟩
    rintro decimal ⟨⟩
    rcases nearer_is with rfl | rfl
    · exact ⟨both.1, .inl rfl⟩
    · exact ⟨both.2, .inr rfl⟩
  · refine ⟨?_, by simp⟩
    rintro decimal ⟨⟩
    exact ⟨lower_iff.mp lower_back, .inl rfl⟩
  · refine ⟨?_, by simp⟩
    rintro decimal ⟨⟩
    exact ⟨upper_iff.mp upper_back, .inr rfl⟩
  · exact ⟨by simp, fun _ => ⟨lower_iff.not.mp lower_back, upper_iff.not.mp upper_back⟩⟩

/-- A grid that is finer than the interval is long gives a decimal. -/
theorem onGrid?_ne_none (positive : 0 < double.significand)
    (fine : (10 : ℚ) ^ exponent < (1 / 2 + double.below / 4) * 2 ^ double.exponent) :
    double.rounding.onGrid? exponent ≠ none := by
  intro none_taken
  rcases (onGrid?_spec positive exponent).2 none_taken with ⟨not_lower, not_upper⟩
  rcases double.neighbours_spec exponent with ⟨lower_le, lt_upper, upper_eq⟩
  have power_pos : (0 : ℚ) < 2 ^ double.exponent := by positivity
  have low_lt : (double.significand - double.below / 4) * 2 ^ double.exponent <
      double.magnitude := by
    have below_pos : (0 : ℚ) < double.below := by
      rcases double.below_spec with ⟨below_eq, _⟩ | ⟨below_eq, _⟩ <;> rw [below_eq] <;> norm_num
    rw [magnitude]
    nlinarith
  have lt_high : double.magnitude < (double.significand + 1 / 2) * 2 ^ double.exponent := by
    rw [magnitude]
    nlinarith
  have lower_le_low : (double.lowerOn exponent).value ≤
      (double.significand - double.below / 4) * 2 ^ double.exponent := by
    by_contra inside
    rw [not_le] at inside
    exact not_lower ⟨inside.le, by linarith, .inr ⟨inside, by linarith⟩⟩
  have high_le_upper : (double.significand + 1 / 2) * 2 ^ double.exponent ≤
      (double.upperOn exponent).value := by
    by_contra inside
    rw [not_le] at inside
    exact not_upper ⟨by linarith, inside.le, .inr ⟨by linarith, inside⟩⟩
  nlinarith

/-- The decimal that is taken comes from one of the grids, if one of them gives any. -/
theorem onFinerGrids_spec (interval : Rounding) (grids : Nat) (exponent : Int)
    (given : ∃ finer < grids, interval.onGrid? (exponent - finer) ≠ none) :
    ∃ finer < grids, interval.onGrid? (exponent - finer) =
      some (interval.onFinerGrids grids exponent) := by
  induction grids generalizing exponent with
  | zero =>
      rcases given with ⟨_, impossible, _⟩
      omega
  | succ grids ih =>
      rw [Rounding.onFinerGrids]
      cases taken : interval.onGrid? exponent with
      | some decimal => exact ⟨0, by omega, by simpa using taken⟩
      | none =>
          rcases given with ⟨finer, finer_lt, given⟩
          cases finer with
          | zero =>
              rw [Nat.cast_zero, sub_zero] at given
              exact absurd taken given
          | succ finer =>
              have shift (finer : Nat) : exponent - (finer + 1 : Nat) = exponent - 1 - finer := by
                push_cast
                ring
              rw [shift] at given
              rcases ih (exponent - 1) ⟨finer, by omega, given⟩ with ⟨finer', finer'_lt, taken'⟩
              exact ⟨finer' + 1, by omega, by rw [shift]; exact taken'⟩

end Grids

section FirstPlace

variable {double : Double}

/-- The powers of ten around a power of two, guessed from its exponent. -/
theorem powers_above : ∀ power < 1024, 10 ^ (power * 30103 / 100000) ≤ 10 * 2 ^ power ∧
    2 * 2 ^ power ≤ 100 * 10 ^ (power * 30103 / 100000) := by
  decide +kernel

theorem powers_below : ∀ depth < 1075, 2 ^ depth ≤ 10 * 10 ^ ((depth * 30103 + 99999) / 100000) ∧
    2 * 10 ^ ((depth * 30103 + 99999) / 100000) ≤ 100 * 2 ^ depth := by
  decide +kernel

theorem zpow_above {power guess : Nat} (low : 10 ^ guess ≤ 10 * 2 ^ power)
    (high : 2 * 2 ^ power ≤ 100 * 10 ^ guess) :
    (10 : ℚ) ^ ((guess : Int) - 1) ≤ 2 ^ (power : Int) ∧
      (2 : ℚ) ^ ((power : Int) + 1) ≤ 10 ^ ((guess : Int) + 2) := by
  have low : (10 : ℚ) ^ guess ≤ 10 * 2 ^ power := by exact_mod_cast low
  have high : 2 * (2 : ℚ) ^ power ≤ 100 * 10 ^ guess := by exact_mod_cast high
  constructor
  · rw [zpow_sub_one₀ (by norm_num), zpow_natCast, zpow_natCast, mul_inv_le_iff₀ (by norm_num)]
    linarith
  · rw [zpow_add₀ (by norm_num), zpow_add₀ (by norm_num), zpow_natCast, zpow_natCast, zpow_one]
    norm_num
    linarith

theorem zpow_below {depth guess : Nat} (low : 2 ^ depth ≤ 10 * 10 ^ guess)
    (high : 2 * 10 ^ guess ≤ 100 * 2 ^ depth) :
    (10 : ℚ) ^ (-(guess : Int) - 1) ≤ 2 ^ (-(depth : Int)) ∧
      (2 : ℚ) ^ (-(depth : Int) + 1) ≤ 10 ^ (-(guess : Int) + 2) := by
  have low : (2 : ℚ) ^ depth ≤ 10 * 10 ^ guess := by exact_mod_cast low
  have high : 2 * (10 : ℚ) ^ guess ≤ 100 * 2 ^ depth := by exact_mod_cast high
  have depth_pos : (0 : ℚ) < 2 ^ depth := by positivity
  have guess_pos : (0 : ℚ) < 10 ^ guess := by positivity
  constructor
  · rw [zpow_sub_one₀ (by norm_num), zpow_neg, zpow_neg, zpow_natCast, zpow_natCast, ← mul_inv,
      inv_le_inv₀ (by positivity) depth_pos]
    linarith
  · rw [zpow_add₀ (by norm_num), zpow_add₀ (by norm_num), zpow_neg, zpow_neg, zpow_natCast,
      zpow_natCast, zpow_one, inv_mul_eq_div, inv_mul_eq_div, div_le_div_iff₀ depth_pos guess_pos]
    norm_num
    linarith

/-- The guess of the first place of a power of two is off by at most one. -/
theorem guess_spec {power : Int} (least_le : -1074 ≤ power) (le_greatest : power ≤ 1023) :
    (10 : ℚ) ^ (power * 30103 / 100000 - 1) ≤ 2 ^ power ∧
      (2 : ℚ) ^ (power + 1) ≤ 10 ^ (power * 30103 / 100000 + 2) := by
  rcases Int.le_total 0 power with above | below
  · lift power to Nat using above
    rcases powers_above power (by omega) with ⟨low, high⟩
    have guess_eq : (power : Int) * 30103 / 100000 = (power * 30103 / 100000 : Nat) := by omega
    rw [guess_eq]
    exact zpow_above low high
  · rcases Int.eq_ofNat_of_zero_le (show 0 ≤ -power by omega) with ⟨depth, depth_eq⟩
    obtain rfl : power = -depth := by omega
    rcases powers_below depth (by omega) with ⟨low, high⟩
    have guess_eq : -(depth : Int) * 30103 / 100000 =
        -((depth * 30103 + 99999) / 100000 : Nat) := by
      omega
    rw [guess_eq]
    exact zpow_below low high

theorem magnitude_bounds (positive : 0 < double.significand) :
    (2 : ℚ) ^ (double.exponent + double.significand.log2) ≤ double.magnitude ∧
      double.magnitude < 2 ^ (double.exponent + double.significand.log2 + 1) := by
  have low : (2 : ℚ) ^ double.significand.log2 ≤ double.significand := by
    exact_mod_cast Nat.log2_self_le positive.ne'
  have high : (double.significand : ℚ) < 2 ^ (double.significand.log2 + 1) := by
    exact_mod_cast Nat.lt_log2_self
  have power_pos : (0 : ℚ) < 2 ^ double.exponent := by positivity
  have low_eq : (2 : ℚ) ^ (double.exponent + double.significand.log2) =
      2 ^ double.significand.log2 * 2 ^ double.exponent := by
    rw [zpow_add₀ two_ne_zero, zpow_natCast, mul_comm]
  have high_eq : (2 : ℚ) ^ (double.exponent + double.significand.log2 + 1) =
      2 ^ (double.significand.log2 + 1) * 2 ^ double.exponent := by
    rw [zpow_add₀ two_ne_zero, low_eq, zpow_one, pow_succ]
    ring
  rw [low_eq, high_eq, magnitude]
  exact ⟨mul_le_mul_of_nonneg_right low power_pos.le, mul_lt_mul_of_pos_right high power_pos⟩

theorem exponent_le_of_isFinite (finite : double.isFinite = true) : double.exponent ≤ 971 := by
  have field_lt : double.exponentField < 2047 := by
    rw [isFinite, decide_eq_true_eq] at finite
    exact (Nat.div_lt_iff_lt_mul fractionCount_pos).mpr finite
  have least_eq : leastExponent = -1074 := rfl
  unfold Double.exponent
  split <;> omega

/-- The powers of two of finite doubles. -/
theorem exponent_bounds (finite : double.isFinite = true) :
    -1074 ≤ double.exponent + double.significand.log2 ∧
      double.exponent + double.significand.log2 ≤ 1023 := by
  rcases double.parts with ⟨parts, short, _⟩
  have least_le := parts.least_le
  have least_eq : leastExponent = -1074 := rfl
  have exponent_le := exponent_le_of_isFinite finite
  have log2_le : double.significand.log2 ≤ 52 := by
    rcases Nat.eq_zero_or_pos double.significand with zero | positive
    · simp [zero]
    · have count_eq : 2 * fractionCount = 2 ^ 53 := by norm_num [fractionCount]
      have := (Nat.log2_lt positive.ne').mpr (count_eq ▸ short)
      omega
  omega

/-- The place of the first decimal digit of a double. -/
def place (double : Double) : Int :=
  double.rounding.firstPlace ((double.exponent + double.significand.log2) * 30103 / 100000)

theorem place_spec (positive : 0 < double.significand) (finite : double.isFinite = true) :
    (10 : ℚ) ^ double.place ≤ double.magnitude ∧ double.magnitude < 10 ^ (double.place + 1) := by
  rcases magnitude_bounds positive with ⟨low, high⟩
  rcases exponent_bounds finite with ⟨least_le, le_greatest⟩
  rcases guess_spec least_le le_greatest with ⟨guess_low, guess_high⟩
  have reaches_iff (exponent : Int) := reaches_iff positive exponent
  rw [place]
  generalize (double.exponent + double.significand.log2) * 30103 / 100000 =
    guess at guess_low guess_high ⊢
  unfold Rounding.firstPlace
  split
  · rename_i reaches
    refine ⟨(reaches_iff _).mp reaches, ?_⟩
    rw [add_assoc]
    exact high.trans_le guess_high
  · rename_i not_next
    have lt_next := not_le.mp ((reaches_iff _).not.mp not_next)
    split
    · rename_i reaches
      exact ⟨(reaches_iff _).mp reaches, lt_next⟩
    · rename_i not_guess
      rw [sub_add_cancel]
      exact ⟨guess_low.trans low, not_le.mp ((reaches_iff _).not.mp not_guess)⟩

end FirstPlace

section Digits

variable {double : Double}

theorem place_bounds (finite : double.isFinite = true) :
    -400 ≤ double.place ∧ double.place ≤ 400 := by
  have bounds := exponent_bounds finite
  rw [place]
  generalize double.exponent + (double.significand.log2 : Int) = power at bounds
  unfold Rounding.firstPlace
  split
  · omega
  · split <;> omega

/-- The last grid that is looked at is finer than the interval is long. -/
theorem last_grid_fine (positive : 0 < double.significand) (finite : double.isFinite = true) :
    (10 : ℚ) ^ (double.place - 16) < (1 / 2 + double.below / 4) * 2 ^ double.exponent := by
  have place_le := (place_spec positive finite).1
  have short : (double.significand : ℚ) < 2 ^ 53 := by
    have := double.significand_lt
    linarith
  have power_pos : (0 : ℚ) < 2 ^ double.exponent := by positivity
  have place_pos : (0 : ℚ) < 10 ^ double.place := by positivity
  rw [zpow_sub₀ (by norm_num), div_lt_iff₀ (by positivity)]
  rw [magnitude] at place_le
  norm_num
  rcases double.below_spec with ⟨below_eq, significand_eq, _⟩ | ⟨below_eq, _⟩
  · rw [significand_eq, cast_fractionCount] at place_le
    rw [below_eq]
    norm_num at place_le ⊢
    linarith
  · have shorter := mul_lt_mul_of_pos_right short power_pos
    rw [below_eq]
    norm_num at shorter ⊢
    linarith

theorem value_pos (positive : 0 < double.significand) {fraction : ℚ}
    (identifies : double.Identifies fraction) : 0 < fraction := by
  have power_pos : (0 : ℚ) < 2 ^ double.exponent := by positivity
  have one_le : (1 : ℚ) ≤ double.significand := by exact_mod_cast positive
  have below_le := double.below_le
  have low := identifies.low
  nlinarith

theorem trim_spec (zeros : Nat) (decimal : Decimal) :
    (decimal.trim zeros).value = decimal.value ∧ (decimal.trim zeros).digits ≤ decimal.digits ∧
      decimal.exponent ≤ (decimal.trim zeros).exponent ∧
      (decimal.trim zeros).exponent ≤ decimal.exponent + zeros := by
  induction zeros generalizing decimal with
  | zero => exact ⟨rfl, le_rfl, le_rfl, by rw [Decimal.trim]; omega⟩
  | succ zeros ih =>
      rw [Decimal.trim]
      split
      · rename_i divides
        rcases ih ⟨decimal.digits / 10, decimal.exponent + 1⟩ with
          ⟨value_eq, digits_le, exponent_ge, exponent_le⟩
        dsimp only at digits_le exponent_ge exponent_le
        refine ⟨?_, by omega, by omega, by push_cast; omega⟩
        have digits_eq : (decimal.digits : ℚ) = (decimal.digits / 10 : Nat) * 10 := by
          exact_mod_cast (Nat.div_mul_cancel (Nat.dvd_of_mod_eq_zero divides)).symm
        rw [value_eq, Decimal.value, Decimal.value, digits_eq, zpow_add₀ (by norm_num), zpow_one]
        ring
      · exact ⟨rfl, le_rfl, le_rfl, by push_cast; omega⟩

/-- What is written for a finite double other than zero identifies it. -/
theorem shortest_spec (positive : 0 < double.significand) (finite : double.isFinite = true) :
    double.Identifies double.shortest.value ∧ 0 < double.shortest.digits ∧
      double.shortest.digits ≤ 10 ^ 17 ∧ -500 ≤ double.shortest.exponent ∧
      double.shortest.exponent ≤ 500 := by
  have given : ∃ finer : Nat, finer < 17 ∧ double.rounding.onGrid? (double.place - finer) ≠ none :=
    ⟨16, by omega, onGrid?_ne_none positive (last_grid_fine positive finite)⟩
  rcases onFinerGrids_spec _ _ _ given with ⟨finer, finer_lt, taken⟩
  have shortest_eq : double.shortest = (double.rounding.onFinerGrids 17 double.place).trim 17 := rfl
  rw [shortest_eq]
  generalize double.rounding.onFinerGrids 17 double.place = decimal at taken
  rcases (onGrid?_spec positive _).1 decimal taken with ⟨identifies, is_neighbour⟩
  rcases trim_spec 17 decimal with ⟨value_eq, digits_le, exponent_ge, exponent_le⟩
  have place_bounds := place_bounds finite
  have floor_lt : ⌊double.magnitude / 10 ^ (double.place - finer)⌋₊ < 10 ^ 17 := by
    have power_pos : (0 : ℚ) < 10 ^ (double.place - finer) := by positivity
    rw [Nat.floor_lt (div_nonneg double.magnitude_nonneg power_pos.le), div_lt_iff₀ power_pos]
    calc double.magnitude < 10 ^ (double.place + 1) := (place_spec positive finite).2
      _ ≤ 10 ^ (17 + (double.place - finer)) := zpow_le_zpow_right₀ (by norm_num) (by omega)
      _ = ((10 ^ 17 : Nat) : ℚ) * 10 ^ (double.place - finer) := by
        rw [zpow_add₀ (by norm_num)]
        norm_num
  have decimal_le : decimal.digits ≤ 10 ^ 17 ∧ decimal.exponent = double.place - finer := by
    rcases is_neighbour with rfl | rfl
    · exact ⟨floor_lt.le, rfl⟩
    · exact ⟨floor_lt, rfl⟩
  rw [value_eq]
  refine ⟨identifies, ?_, by omega, by omega, by omega⟩
  rw [← value_eq] at identifies
  have value_pos := value_pos positive identifies
  by_contra zero
  rw [Decimal.value, Nat.eq_zero_of_not_pos zero] at value_pos
  simp at value_pos

end Digits

end Deferral.Double

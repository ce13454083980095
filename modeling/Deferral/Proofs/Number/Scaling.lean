import Deferral.Number.Scaling
import Deferral.Proofs.Number.Nearest

/-!
# How far a decimal is off when it has been scaled

A significand and a power of ten are rounded before they are multiplied or divided, and the outcome
is rounded once more. A power of ten beyond the largest double takes two divisions. So up to five
roundings add up. None of them is off where the significand has at most 53 bits and the power of ten
is small, and then the outcome is the double nearest to the decimal.
-/

namespace Deferral.Double

section Operations

variable {first second : Double}

theorem toFraction_spec (double : Double) :
    0 < double.toFraction.2 ∧ valueOf double.toFraction = double.magnitude := by
  unfold toFraction magnitude
  cases double.exponent with
  | ofNat power => exact ⟨Nat.one_pos, by simp [valueOf]⟩
  | negSucc power =>
      refine ⟨Nat.pow_pos (by decide), ?_⟩
      simp [valueOf, div_eq_mul_inv, zpow_negSucc]

/-- A product is rounded once. -/
theorem times_spec (first second : Double) :
    ∃ numerator denominator : Nat, 0 < denominator ∧
      (numerator / denominator : ℚ) = first.magnitude * second.magnitude ∧
      first.times second =
        nearest (first.isNegative != second.isNegative) numerator denominator := by
  rcases toFraction_spec first with ⟨positive, value_eq⟩
  rcases toFraction_spec second with ⟨positive', value_eq'⟩
  refine ⟨first.toFraction.1 * second.toFraction.1, first.toFraction.2 * second.toFraction.2,
    Nat.mul_pos positive positive', ?_, rfl⟩
  rw [← value_eq, ← value_eq', valueOf, valueOf]
  push_cast
  rw [div_mul_div_comm]

/-- A quotient is rounded once. -/
theorem dividedBy_spec (first : Double) (not_zero : 0 < second.magnitude) :
    ∃ numerator denominator : Nat, 0 < denominator ∧
      (numerator / denominator : ℚ) = first.magnitude / second.magnitude ∧
      first.dividedBy second =
        nearest (first.isNegative != second.isNegative) numerator denominator := by
  rcases toFraction_spec first with ⟨positive, value_eq⟩
  rcases toFraction_spec second with ⟨_, value_eq'⟩
  rw [← value_eq', valueOf] at not_zero
  have numerator_pos : 0 < second.toFraction.1 := by
    by_contra zero
    rw [Nat.eq_zero_of_not_pos zero, Nat.cast_zero, zero_div] at not_zero
    exact lt_irrefl _ not_zero
  refine ⟨first.toFraction.1 * second.toFraction.2, first.toFraction.2 * second.toFraction.1,
    Nat.mul_pos positive numerator_pos, ?_, rfl⟩
  rw [← value_eq, ← value_eq', valueOf, valueOf]
  push_cast
  rw [div_div_div_eq]

end Operations

section Bounds

variable {double : Double}

theorem magnitude_lt_overflowBound (finite : double.isFinite = true) :
    double.magnitude < overflowBound := by
  have short := double.significand_lt
  have power_le := two_zpow_le (exponent_le_of_isFinite finite)
  have power_pos : (0 : ℚ) < 2 ^ double.exponent := by positivity
  rw [magnitude, overflowBound]
  generalize (2 : ℚ) ^ (971 : Int) = unit at power_le
  nlinarith

end Bounds

/-- One part in `2 ^ 53`, which rounding may be off by. -/
def precision : ℚ := 1 / 2 ^ 53

/-- Half the smallest double. -/
def leastHalf : ℚ := 2 ^ (-1075 : Int)

/-- A number is near another one: it is off by at most so many parts in `2 ^ 53` of it and so many
halves of the smallest double. -/
def Near (parts halves approximate exact : ℚ) : Prop :=
  |approximate - exact| ≤ parts * (precision * exact) + halves * leastHalf

section Errors

variable {parts halves approximate exact rounded : ℚ} {power power' : ℚ}

theorem leastHalf_pos : 0 < leastHalf := by
  unfold leastHalf
  positivity

theorem Near.bounds (near : Near 1 0 approximate exact) :
    (1 - precision) * exact ≤ approximate ∧ approximate ≤ (1 + precision) * exact := by
  unfold Near at near
  rw [abs_le] at near
  constructor <;> linarith

/-- A product of rounded factors. -/
theorem Near.product_bounds (near : Near 1 0 approximate exact) (near' : Near 1 0 power' power)
    (nonneg : 0 ≤ exact) (nonneg' : 0 ≤ power) :
    (1 - precision) * (1 - precision) * (exact * power) ≤ approximate * power' ∧
      approximate * power' ≤ (1 + precision) * (1 + precision) * (exact * power) := by
  rcases near.bounds with ⟨low, high⟩
  rcases near'.bounds with ⟨low', high'⟩
  have positive : (0 : ℚ) ≤ 1 - precision := by norm_num [precision]
  have positive' : (0 : ℚ) ≤ precision := by norm_num [precision]
  constructor
  · calc (1 - precision) * (1 - precision) * (exact * power)
        = (1 - precision) * exact * ((1 - precision) * power) := by ring
      _ ≤ approximate * power' := by
        gcongr
        exact le_trans (by positivity) low
  · calc approximate * power'
        ≤ (1 + precision) * exact * ((1 + precision) * power) := by
          gcongr
          exact le_trans (by positivity) low'
      _ = (1 + precision) * (1 + precision) * (exact * power) := by ring

/-- A product of rounded factors that is rounded in turn. -/
theorem Near.product {product : ℚ} (near : Near 1 0 rounded product) (nonneg : 0 ≤ exact)
    (low : (1 - precision) * (1 - precision) * exact ≤ product)
    (high : product ≤ (1 + precision) * (1 + precision) * exact) : Near 6 3 rounded exact := by
  have half_pos := leastHalf_pos
  unfold Near precision at *
  rw [abs_le] at near ⊢
  constructor <;> linarith

/-- A quotient by a rounded power that is rounded in turn. -/
theorem Near.quotient (near : Near parts halves approximate exact) (near' : Near 1 0 power' power)
    (one_le : 1 ≤ power) (nonneg : 0 ≤ exact) (nonneg' : 0 ≤ approximate)
    (parts_le : parts ≤ 10) (halves_nonneg : 0 ≤ halves)
    (near_quotient : Near 1 1 rounded (approximate / power')) :
    Near (parts + 5 / 2) (2 * halves + 1) rounded (exact / power) := by
  rcases near'.bounds with ⟨low', high'⟩
  have half_pos := leastHalf_pos
  have power_pos : 0 < power := by linarith
  have small : precision = 1 / 2 ^ 53 := rfl
  have power'_pos : 0 < power' := by
    have : 0 < (1 - precision) * power := mul_pos (by norm_num [precision]) power_pos
    linarith
  -- the number over the power as it is, and over the rounded power
  have off : |approximate / power - exact / power| ≤
      parts * (precision * (exact / power)) + halves * leastHalf := by
    rw [← sub_div, abs_div, abs_of_pos power_pos, div_le_iff₀ power_pos]
    have slack_le : halves * leastHalf ≤ halves * leastHalf * power :=
      le_mul_of_one_le_right (by positivity) one_le
    calc |approximate - exact| ≤ parts * (precision * exact) + halves * leastHalf := near
      _ ≤ parts * (precision * exact) + halves * leastHalf * power := by linarith
      _ = (parts * (precision * (exact / power)) + halves * leastHalf) * power := by
        field_simp
  have quotient_le : (1 - precision) * (approximate / power') ≤ approximate / power := by
    rw [← mul_div_assoc, div_le_div_iff₀ power'_pos power_pos]
    nlinarith
  have le_quotient : approximate / power ≤ (1 + precision) * (approximate / power') := by
    rw [← mul_div_assoc, div_le_div_iff₀ power_pos power'_pos]
    nlinarith
  have value_nonneg : 0 ≤ exact / power := by positivity
  have parts_part : parts * (precision * (exact / power)) ≤ 10 * (precision * (exact / power)) := by
    rw [small]
    gcongr
  have halves_part : 0 ≤ halves * leastHalf := by positivity
  unfold Near at near_quotient ⊢
  have parts_eq : (parts + 5 / 2) * (precision * (exact / power)) =
      parts * (precision * (exact / power)) + 5 / 2 * (precision * (exact / power)) := by
    ring
  have halves_eq : (2 * halves + 1) * leastHalf = 2 * (halves * leastHalf) + leastHalf := by
    ring
  rw [parts_eq, halves_eq]
  generalize parts * (precision * (exact / power)) = parts_off at *
  generalize halves * leastHalf = halves_off at *
  generalize approximate / power' = quotient at *
  generalize approximate / power = quotient' at *
  generalize exact / power = value at *
  rw [small] at *
  rw [abs_le] at off near_quotient ⊢
  constructor <;> linarith

end Errors

section Rounding

variable {negative : Bool} {numerator denominator : Nat}

theorem near_nearest (positive : 0 < denominator)
    (finite : (nearest negative numerator denominator).isFinite = true) :
    Near 1 1 (nearest negative numerator denominator).magnitude (numerator / denominator) := by
  have half_pos := leastHalf_pos
  have nonneg : (0 : ℚ) ≤ numerator / denominator := by positivity
  have part_nonneg : 0 ≤ precision * (numerator / denominator : ℚ) := by
    unfold precision
    positivity
  unfold Near
  rcases magnitude_nearest_near positive finite with off | ⟨_, off⟩
  · exact off.trans (by rw [one_mul, one_mul]; exact le_add_of_nonneg_right half_pos.le)
  · exact off.trans (by rw [one_mul, one_mul]; exact le_add_of_nonneg_left part_nonneg)

/-- Numbers from one half on are not so small that rounding would be off by a fixed amount. -/
theorem near_nearest_of_half_le (positive : 0 < denominator)
    (finite : (nearest negative numerator denominator).isFinite = true)
    (half_le : (1 / 2 : ℚ) ≤ numerator / denominator) :
    Near 1 0 (nearest negative numerator denominator).magnitude (numerator / denominator) := by
  unfold Near
  rw [one_mul, zero_mul, add_zero]
  refine (magnitude_nearest_near positive finite).resolve_right fun ⟨less, _⟩ => ?_
  have power_le := two_zpow_le (show (-1022 : Int) ≤ -1 by decide)
  rw [zpow_neg_one] at power_le
  linarith

end Rounding

section Naturals

variable {number power : Nat}

theorem isNegative_ofNat (number : Nat) : (ofNat number).isNegative = false :=
  isNegative_nearest false number 1

/-- What is at most the largest power of ten is not rounded to an infinity. -/
theorem isFinite_ofNat (small : number ≤ 10 ^ power) (le : power ≤ largestPower) :
    (ofNat number).isFinite = true := by
  have largest_lt : 10 ^ largestPower < (2 ^ 54 - 1) * 2 ^ 970 := by decide +kernel
  have power_le : 10 ^ power ≤ 10 ^ largestPower := Nat.pow_le_pow_right (by decide) le
  apply isFinite_nearest false Nat.one_pos
  rw [Nat.cast_one, div_one, overflowBound_eq]
  exact Nat.cast_lt.mpr ((small.trans power_le).trans_lt largest_lt)

theorem near_ofNat (positive : 0 < number) (finite : (ofNat number).isFinite = true) :
    Near 1 0 (ofNat number).magnitude number := by
  have one_le : (1 : ℚ) ≤ number := by exact_mod_cast positive
  have half_le : (1 / 2 : ℚ) ≤ number / (1 : Nat) := by
    rw [Nat.cast_one, div_one]
    linarith
  have near := near_nearest_of_half_le Nat.one_pos finite half_le
  rwa [Nat.cast_one, div_one] at near

theorem magnitude_ofNat (finite : (ofNat number).isFinite = true) {significand : Nat} (power : Nat)
    (number_eq : number = significand * 2 ^ power) (short : significand ≤ 2 ^ 53) :
    (ofNat number).magnitude = number := by
  have value_eq : (number / (1 : Nat) : ℚ) = significand * 2 ^ (power : Int) := by
    rw [number_eq]
    push_cast
    rw [div_one, zpow_natCast]
  have least_le : leastExponent ≤ (power : Int) := by
    have least_eq : leastExponent = -1074 := rfl
    omega
  rw [ofNat, magnitude_nearest_exact Nat.one_pos finite value_eq short least_le, ← value_eq,
    Nat.cast_one, div_one]

theorem isFinite_powerOfTen (le : power ≤ largestPower) : (powerOfTen power).isFinite = true :=
  isFinite_ofNat le_rfl le

theorem near_powerOfTen (le : power ≤ largestPower) :
    Near 1 0 (powerOfTen power).magnitude (10 ^ power) := by
  have near := near_ofNat (Nat.pow_pos (show 0 < 10 by decide)) (isFinite_powerOfTen le)
  rwa [Nat.cast_pow, Nat.cast_ofNat] at near

/-- The powers of ten up to `10 ^ 22` are doubles. -/
theorem magnitude_powerOfTen (le : power ≤ 22) : (powerOfTen power).magnitude = 10 ^ power := by
  have number_eq : Nat.pow 10 power = 5 ^ power * 2 ^ power := by
    rw [← Nat.mul_pow]
    rfl
  have short : 5 ^ power ≤ 2 ^ 53 := (Nat.pow_le_pow_right (by decide) le).trans (by decide)
  have finite := isFinite_powerOfTen (le.trans (by decide))
  rw [powerOfTen, magnitude_ofNat finite power number_eq short, cast_pow]
  norm_num

/-- A power of ten is not rounded below one. -/
theorem one_le_magnitude_powerOfTen (le : power ≤ largestPower) :
    1 ≤ (powerOfTen power).magnitude := by
  rcases Nat.eq_zero_or_pos power with rfl | positive
  · rw [magnitude_powerOfTen (by decide), pow_zero]
  · have ten_le : (10 : ℚ) ≤ 10 ^ power := le_self_pow₀ (by norm_num) positive.ne'
    have low := (near_powerOfTen le).bounds.1
    unfold precision at low
    linarith

end Naturals

/-- A finite double that is not below zero is near a number. -/
structure Approximates (parts halves : ℚ) (double : Double) (value : ℚ) : Prop where
  isFinite : double.isFinite = true
  isNegative : double.isNegative = false
  near : Near parts halves double.magnitude value

section Scaling

variable {parts halves value : ℚ} {double : Double} {significand power : Nat} {exponent : Int}

theorem Near.weaken {parts' halves' approximate exact : ℚ}
    (near : Near parts halves approximate exact)
    (nonneg : 0 ≤ exact) (parts_le : parts ≤ parts') (halves_le : halves ≤ halves') :
    Near parts' halves' approximate exact := by
  have half_pos := leastHalf_pos
  have part_nonneg : 0 ≤ precision * exact := by
    unfold precision
    positivity
  unfold Near at near ⊢
  exact near.trans (by gcongr)

theorem approximates_ofNat (positive : 0 < significand) (small : significand ≤ 10 ^ 17) :
    Approximates 1 0 (ofNat significand) significand :=
  have finite := isFinite_ofNat small (by decide)
  ⟨finite, isNegative_ofNat _, near_ofNat positive finite⟩

/-- A division by a power of ten is one rounding of a quotient by a rounded power. -/
theorem dividedBy_powerOfTen (isFinite : double.isFinite = true)
    (isNegative : double.isNegative = false) (le : power ≤ largestPower) :
    ∃ numerator denominator : Nat, 0 < denominator ∧
      (numerator / denominator : ℚ) = double.magnitude / (powerOfTen power).magnitude ∧
      double.dividedBy (powerOfTen power) = nearest false numerator denominator ∧
      (double.dividedBy (powerOfTen power)).isFinite = true := by
  have one_le := one_le_magnitude_powerOfTen le
  rcases dividedBy_spec double (lt_of_lt_of_le one_pos one_le) with
    ⟨numerator, denominator, positive, value_eq, quotient_eq⟩
  have sign_eq : (double.isNegative != (powerOfTen power).isNegative) = false := by
    rw [isNegative, powerOfTen, isNegative_ofNat]
    rfl
  have small : (numerator / denominator : ℚ) < overflowBound := by
    rw [value_eq]
    exact (div_le_self double.magnitude_nonneg one_le).trans_lt
      (magnitude_lt_overflowBound isFinite)
  rw [sign_eq] at quotient_eq
  refine ⟨numerator, denominator, positive, value_eq, quotient_eq, ?_⟩
  rw [quotient_eq]
  exact isFinite_nearest false positive small

theorem Approximates.dividedBy (approximates : Approximates parts halves double value)
    (nonneg : 0 ≤ value)
    (parts_le : parts ≤ 10) (halves_nonneg : 0 ≤ halves) (le : power ≤ largestPower) :
    Approximates (parts + 5 / 2) (2 * halves + 1) (double.dividedBy (powerOfTen power))
      (value / 10 ^ power) := by
  rcases approximates with ⟨isFinite, isNegative, near⟩
  rcases dividedBy_powerOfTen isFinite isNegative le with
    ⟨numerator, denominator, positive, value_eq, quotient_eq, quotient_finite⟩
  have one_le : (1 : ℚ) ≤ 10 ^ power := one_le_pow₀ (by norm_num)
  refine ⟨quotient_finite, ?_, ?_⟩
  · rw [quotient_eq, isNegative_nearest]
  · refine near.quotient
      (near_powerOfTen le) one_le nonneg double.magnitude_nonneg parts_le halves_nonneg ?_
    rw [← value_eq, quotient_eq]
    rw [quotient_eq] at quotient_finite
    exact near_nearest positive quotient_finite

/-- Bringing a double down takes one division or two. -/
theorem Approximates.shrink (approximates : Approximates 1 0 double value) (nonneg : 0 ≤ value)
    (le : power ≤ 2 * largestPower) :
    Approximates 6 3 (double.shrink power) (value / 10 ^ power) := by
  have once {power : Nat} (le : power ≤ largestPower) :=
    approximates.dividedBy nonneg (by norm_num) le_rfl le
  rw [Double.shrink]
  split
  · rename_i short
    rcases once short with ⟨isFinite, isNegative, near⟩
    exact ⟨isFinite, isNegative, near.weaken (by positivity) (by norm_num) (by norm_num)⟩
  · rename_i long
    split
    · rename_i zero
      have magnitude_eq : double.magnitude = 0 := magnitude_of_isZero (by simpa [isZero] using zero)
      have value_eq : value = 0 := by
        have low := approximates.near.bounds.1
        rw [magnitude_eq] at low
        unfold precision at low
        linarith
      rw [value_eq, zero_div]
      exact ⟨approximates.isFinite,
        approximates.isNegative, by simp [Near, magnitude_eq, leastHalf_pos.le]⟩
    · have rest_le : power - largestPower ≤ largestPower := by omega
      have twice := (once le_rfl).dividedBy (by positivity) (by norm_num) (by norm_num) rest_le
      have value_eq : value / 10 ^ largestPower / 10 ^ (power - largestPower) =
          value / 10 ^ power := by
        rw [div_div, ← pow_add, Nat.add_sub_cancel' (Nat.le_of_not_le long)]
      rw [value_eq] at twice
      rw [Double.shrink, if_pos rest_le]
      rcases twice with ⟨isFinite, isNegative, near⟩
      exact ⟨isFinite, isNegative, near.weaken (by positivity) (by norm_num) (by norm_num)⟩

/-- A number that is brought down is never refused. -/
theorem ofDecimal?_negSucc (positive : 0 < significand) (small : significand ≤ 10 ^ 17)
    (le : power + 1 ≤ 2 * largestPower) :
    ∃ double, ofDecimal? significand (.negSucc power) = some double ∧
      Approximates 6 3 double (significand * 10 ^ Int.negSucc power) := by
  refine ⟨(ofNat significand).shrink (power + 1), by rw [ofDecimal?], ?_⟩
  rw [zpow_negSucc, ← div_eq_mul_inv]
  exact (approximates_ofNat positive small).shrink (Nat.cast_nonneg _) le

theorem times_ofNat_powerOfTen (significand power : Nat) :
    ∃ numerator denominator : Nat, 0 < denominator ∧
      (numerator / denominator : ℚ) = (ofNat significand).magnitude * (powerOfTen power).magnitude ∧
      (ofNat significand).times (powerOfTen power) = nearest false numerator denominator := by
  rcases times_spec (ofNat significand) (powerOfTen power) with
    ⟨numerator, denominator, positive, value_eq, product_eq⟩
  have sign_eq : ((ofNat significand).isNegative != (powerOfTen power).isNegative) = false := by
    rw [powerOfTen, isNegative_ofNat, isNegative_ofNat]
    rfl
  rw [sign_eq] at product_eq
  exact ⟨numerator, denominator, positive, value_eq, product_eq⟩

/-- A multiplication by a power of ten is one rounding of a product of rounded factors. -/
theorem times_bounds (positive : 0 < significand) (small : significand ≤ 10 ^ 17)
    (le : power ≤ largestPower) :
    ∃ numerator denominator : Nat, 0 < denominator ∧
      (1 - precision) * (1 - precision) * (significand * 10 ^ power) ≤ numerator / denominator ∧
      (numerator / denominator : ℚ) ≤
        (1 + precision) * (1 + precision) * (significand * 10 ^ power) ∧
      (ofNat significand).times (powerOfTen power) = nearest false numerator denominator := by
  rcases times_ofNat_powerOfTen significand power with
    ⟨numerator, denominator, denominator_pos, value_eq, product_eq⟩
  have near := near_ofNat positive (isFinite_ofNat small (by decide))
  rcases near.product_bounds (near_powerOfTen le) (by positivity) (by positivity) with ⟨low, high⟩
  exact ⟨numerator, denominator, denominator_pos, value_eq ▸ low, value_eq ▸ high, product_eq⟩

/-- A number that is brought up becomes infinite only if it is about too large. -/
theorem isFinite_times (positive : 0 < significand) (small : significand ≤ 10 ^ 17)
    (le : power ≤ largestPower)
    (bounded : (1 + 3 * precision) * (significand * 10 ^ power) < overflowBound) :
    ((ofNat significand).times (powerOfTen power)).isFinite = true := by
  rcases times_bounds positive small le with
    ⟨numerator, denominator, denominator_pos, _, high, product_eq⟩
  have value_nonneg : (0 : ℚ) ≤ significand * 10 ^ power := by positivity
  rw [product_eq]
  refine isFinite_nearest false denominator_pos (lt_of_le_of_lt (high.trans ?_) bounded)
  unfold precision
  linarith

/-- A number that is brought up is refused only if it becomes infinite. -/
theorem ofDecimal?_ofNat (positive : 0 < significand) (small : significand ≤ 10 ^ 17)
    (le : power ≤ largestPower)
    (finite : ((ofNat significand).times (powerOfTen power)).isFinite = true) :
    ∃ double, ofDecimal? significand (power : Nat) = some double ∧
      Approximates 6 3 double (significand * 10 ^ (power : Int)) := by
  rcases times_bounds positive small le with
    ⟨numerator, denominator, denominator_pos, low, high, product_eq⟩
  have one_le : (1 : ℚ) ≤ significand := by exact_mod_cast positive
  have one_le' : (1 : ℚ) ≤ 10 ^ power := one_le_pow₀ (by norm_num)
  have value_ge : (1 : ℚ) ≤ significand * 10 ^ power :=
    one_le_mul_of_one_le_of_one_le one_le one_le'
  have half_le : (1 / 2 : ℚ) ≤ numerator / denominator := by
    refine le_trans ?_ low
    unfold precision
    linarith
  rw [product_eq] at finite
  have near := (near_nearest_of_half_le denominator_pos finite half_le).product
    (by positivity) low high
  refine ⟨nearest false numerator denominator, ?_, finite, isNegative_nearest _ _ _, ?_⟩
  · simp only [ofDecimal?, if_pos le, product_eq, not_isInfinite finite]
    rfl
  · rw [zpow_natCast]
    exact near

/-- Where neither the significand nor the power has to be rounded, the number is rounded once. -/
theorem ofDecimal?_exact (short : significand ≤ 2 ^ 53) (ge : -22 ≤ exponent) (le : exponent ≤ 22) :
    ∃ numerator denominator : Nat, 0 < denominator ∧
      (numerator / denominator : ℚ) = significand * 10 ^ exponent ∧
      ofDecimal? significand exponent = some (nearest false numerator denominator) := by
  have finite : (ofNat significand).isFinite = true :=
    isFinite_ofNat (short.trans (show 2 ^ 53 ≤ 10 ^ 17 by decide)) (by decide)
  have magnitude_eq : (ofNat significand).magnitude = significand :=
    magnitude_ofNat finite 0 (by simp) short
  cases exponent with
  | ofNat power =>
      rw [Int.ofNat_eq_natCast] at le
      have power_le : power ≤ 22 := by omega
      rcases times_ofNat_powerOfTen significand power with
        ⟨numerator, denominator, positive, value_eq, product_eq⟩
      rw [magnitude_eq, magnitude_powerOfTen power_le] at value_eq
      have small : (numerator / denominator : ℚ) < overflowBound := by
        have short : (significand : ℚ) ≤ 2 ^ 53 := by exact_mod_cast short
        have power_small : (10 : ℚ) ^ power ≤ 10 ^ 22 := pow_le_pow_right₀ (by norm_num) power_le
        have product_le : (significand : ℚ) * 10 ^ power ≤ 2 ^ 53 * 10 ^ 22 := by gcongr
        have unit_le := two_zpow_le (show (100 : Int) ≤ 971 by decide)
        rw [value_eq, overflowBound]
        generalize (2 : ℚ) ^ (971 : Int) = unit at unit_le
        norm_num at unit_le product_le ⊢
        linarith
      have not_infinite := not_isInfinite (isFinite_nearest false positive small)
      refine ⟨numerator, denominator, positive, ?_, ?_⟩
      · rw [value_eq, Int.ofNat_eq_natCast, zpow_natCast]
      · simp only [ofDecimal?, if_pos (power_le.trans (show 22 ≤ largestPower by decide)),
          product_eq, not_infinite]
        rfl
  | negSucc power =>
      rw [Int.negSucc_eq] at ge
      have power_le : power + 1 ≤ 22 := by omega
      have power_le' : power + 1 ≤ largestPower := power_le.trans (by decide)
      rcases dividedBy_powerOfTen finite (isNegative_ofNat significand) power_le' with
        ⟨numerator, denominator, positive, value_eq, quotient_eq, _⟩
      refine ⟨numerator, denominator, positive, ?_, ?_⟩
      · rw [value_eq, magnitude_eq, magnitude_powerOfTen power_le, zpow_negSucc, div_eq_mul_inv]
      · rw [ofDecimal?, shrink, if_pos power_le', quotient_eq]

end Scaling

end Deferral.Double

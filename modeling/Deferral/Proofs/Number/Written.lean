import Mathlib.Data.Nat.Digits.Defs
import Deferral.Proofs.Number.Scaling

/-!
# The decimal that is written for a double

The decimal that is written for a finite double identifies the double. When it is scaled it is never
refused, and what comes of it is close to the double; but it need not be the double itself unless
the decimal is short.
-/

namespace Deferral.Double

namespace Decimal

/-- The place of the first digit. -/
def place (decimal : Decimal) : Int :=
  (Nat.toDigits 10 decimal.digits).length - 1 + decimal.exponent

/-- The same number with zeros down to the first place behind the point. -/
def padded (decimal : Decimal) : Decimal := ⟨decimal.digits * 10 ^ (decimal.exponent.toNat + 1), -1⟩

variable {decimal : Decimal}

theorem padded_value (whole : 0 ≤ decimal.exponent) : decimal.padded.value = decimal.value := by
  rcases decimal with ⟨digits, exponent⟩
  lift exponent to Nat using whole
  simp only [padded, value, Int.toNat_natCast, Nat.cast_mul, Nat.cast_pow, Nat.cast_ofNat,
    zpow_natCast, zpow_neg_one, pow_succ]
  field_simp

theorem padded_digits_le (whole : 0 ≤ decimal.exponent) (place_le : decimal.place ≤ 15) :
    decimal.padded.digits ≤ 10 ^ 17 := by
  have digits_lt := (Nat.length_toDigits_le_iff (by decide) Nat.length_toDigits_pos).mp
    (le_refl (Nat.toDigits 10 decimal.digits).length)
  rw [place] at place_le
  calc decimal.digits * 10 ^ (decimal.exponent.toNat + 1)
      ≤ 10 ^ (Nat.toDigits 10 decimal.digits).length * 10 ^ (decimal.exponent.toNat + 1) :=
        Nat.mul_le_mul_right _ digits_lt.le
    _ = 10 ^ ((Nat.toDigits 10 decimal.digits).length + (decimal.exponent.toNat + 1)) :=
        (Nat.pow_add _ _ _).symm
    _ ≤ 10 ^ 17 := Nat.pow_le_pow_right (by decide) (by omega)

end Decimal

/-- The decimal that the text of a double is read as. A zero that stands behind the point is a digit
of it. -/
def written (double : Double) : Decimal :=
  if double.isZero then ⟨0, -1⟩
  else if 0 ≤ double.shortest.exponent ∧ double.shortest.place ≤ 15 then double.shortest.padded
  else double.shortest

section Written

variable {double other : Double}

theorem written_of_isZero (zero : double.isZero = true) : double.written = ⟨0, -1⟩ :=
  if_pos zero

/-- What is written for a finite double other than zero identifies it. -/
theorem written_spec (not_zero : double.isZero = false) (finite : double.isFinite = true) :
    double.Identifies double.written.value ∧ 0 < double.written.digits ∧
      double.written.digits ≤ 10 ^ 17 ∧ -500 ≤ double.written.exponent := by
  rcases shortest_spec (significand_pos not_zero) finite with
    ⟨identifies, digits_pos, digits_le, exponent_ge, _⟩
  rw [written, if_neg (Bool.eq_false_iff.mp not_zero)]
  split
  · rename_i whole
    rw [Decimal.padded_value whole.1]
    exact ⟨identifies, Nat.mul_pos digits_pos (Nat.pow_pos (by decide)),
      Decimal.padded_digits_le whole.1 whole.2, show (-500 : Int) ≤ -1 by decide⟩
  · exact ⟨identifies, digits_pos, digits_le, exponent_ge⟩

/-- The sign of a double does not matter for what is written behind it. -/
theorem written_congr (same : double.magnitudeBits = other.magnitudeBits) :
    double.written = other.written := by
  have rounding_eq : double.rounding = other.rounding := by
    rw [rounding, rounding, fraction, fraction, exponentField, exponentField, same,
      significand_congr same, exponent_congr same]
  have shortest_eq : double.shortest = other.shortest := by
    rw [shortest, shortest, rounding_eq, significand_congr same, exponent_congr same]
  have zero_eq : double.isZero = other.isZero := by rw [isZero, isZero, same]
  rw [written, written, shortest_eq, zero_eq]

/-- A decimal that identifies a finite double does not reach the next power of two. -/
theorem value_lt (finite : double.isFinite = true)
    {value : ℚ} (identifies : double.Identifies value) :
    value < 2 ^ (1024 : Int) := by
  have high := identifies.high
  have short := double.significand_lt
  have power_le := two_zpow_le (exponent_le_of_isFinite finite)
  have power_pos : (0 : ℚ) < 2 ^ double.exponent := by positivity
  have split_eq : (2 : ℚ) ^ (1024 : Int) = 2 ^ 53 * 2 ^ (971 : Int) := by
    rw [← zpow_natCast, ← zpow_add₀ two_ne_zero]
    rfl
  rw [split_eq]
  generalize (2 : ℚ) ^ (971 : Int) = unit at power_le
  nlinarith

/-- What is written for a double, rounded once, is the double. -/
theorem nearestMagnitude_of_written (finite : double.isFinite = true) {numerator denominator : Nat}
    (positive : 0 < denominator) (value_eq : (numerator / denominator : ℚ) = double.written.value) :
    nearestMagnitude numerator denominator = double.magnitudeBits := by
  cases zero : double.isZero with
  | true =>
      have bits_eq : double.magnitudeBits = 0 := by simpa [isZero] using zero
      refine nearestMagnitude_of_magnitude finite positive ?_
      rw [value_eq, written_of_isZero zero, magnitude_of_isZero bits_eq]
      simp [Decimal.value]
  | false =>
      have identifies := (written_spec zero finite).1
      have value_pos := value_pos (significand_pos zero) identifies
      rw [← value_eq] at identifies value_pos
      have numerator_pos : 0 < numerator := by
        by_contra zero
        rw [Nat.eq_zero_of_not_pos zero, Nat.cast_zero, zero_div] at value_pos
        exact lt_irrefl _ value_pos
      exact identifies.nearestMagnitude_eq finite numerator_pos positive

end Written

section Scaled

variable {double : Double}

/-- The finite doubles with the largest magnitudes. -/
def largest (gap : Nat) : Double := ofMagnitude false (infinityBits - 1 - gap)

/-- The decimals of the three largest doubles do not become too large. -/
theorem largest_finite : ∀ gap < 3,
    ((ofNat (largest gap).written.digits).times
      (powerOfTen (largest gap).written.exponent.toNat)).isFinite = true := by
  decide +kernel

/-- The decimal of a double that is not among the largest leaves room for the roundings. -/
theorem value_bounded (finite : double.isFinite = true)
    {value : ℚ} (identifies : double.Identifies value)
    (not_largest : double.exponent = 971 → double.significand + 3 < 2 ^ 53) :
    (1 + 3 * precision) * value < overflowBound := by
  have high := identifies.high
  have exponent_le := exponent_le_of_isFinite finite
  rw [overflowBound]
  unfold precision
  rcases exponent_le.lt_or_eq with less | top
  · have power_le := two_zpow_le (show double.exponent ≤ 971 - 1 by omega)
    rw [zpow_sub₀ two_ne_zero, zpow_one] at power_le
    have short := double.significand_lt
    have power_pos : (0 : ℚ) < 2 ^ double.exponent := by positivity
    generalize (2 : ℚ) ^ (971 : Int) = unit at power_le
    nlinarith
  · have short : ((double.significand + 4 : Nat) : ℚ) ≤ (2 ^ 53 : Nat) := by
      exact_mod_cast not_largest top
    push_cast at short
    rw [top] at high
    have unit_pos : (0 : ℚ) < 2 ^ (971 : Int) := by positivity
    generalize (2 : ℚ) ^ (971 : Int) = unit at high unit_pos
    nlinarith

theorem written_largest (top : double.exponent = 971) (long : 2 ^ 53 ≤ double.significand + 3) :
    ∃ gap < 3, double.written = (largest gap).written := by
  rcases double.parts with ⟨_, short, bits_eq⟩
  have count_eq : fractionCount = 4503599627370496 := rfl
  have weight_eq : signWeight = 9223372036854775808 := rfl
  have gap_eq : (971 - leastExponent).toNat = 2045 := rfl
  rw [top, magnitudeOf, gap_eq] at bits_eq
  refine ⟨2 ^ 53 - 1 - double.significand, by omega, written_congr ?_⟩
  rw [largest, magnitudeBits_ofMagnitude false (by rw [infinityBits]; omega), bits_eq, infinityBits]
  omega

/-- The decimal that is written for a finite double is not refused when it is scaled. -/
theorem ofDecimal?_written (not_zero : double.isZero = false) (finite : double.isFinite = true) :
    ∃ scaled, ofDecimal? double.written.digits double.written.exponent = some scaled ∧
      Approximates 6 3 scaled double.written.value := by
  rcases written_spec not_zero finite with ⟨identifies, digits_pos, digits_le, exponent_ge⟩
  have value_lt := value_lt finite identifies
  have value_bounded := value_bounded finite identifies
  have limit_eq : largestPower = 308 := rfl
  cases exponent_eq : double.written.exponent with
  | negSucc power =>
      rw [Decimal.value, exponent_eq]
      rw [exponent_eq, Int.negSucc_eq] at exponent_ge
      exact ofDecimal?_negSucc digits_pos digits_le (by omega)
  | ofNat power =>
      rw [Decimal.value, exponent_eq, Int.ofNat_eq_natCast, zpow_natCast] at value_lt value_bounded
      have le : power ≤ largestPower := by
        have digits_ge : (1 : ℚ) ≤ double.written.digits := by exact_mod_cast digits_pos
        have power_pos : (0 : ℚ) < 10 ^ power := by positivity
        have bound : (2 : ℚ) ^ (1024 : Int) ≤ 10 ^ (309 : Int) :=
          (guess_spec (show (-1074 : Int) ≤ 1023 by decide) le_rfl).2
        have power_lt : (10 : ℚ) ^ (power : Int) < 10 ^ (309 : Int) := by
          rw [zpow_natCast]
          exact (le_mul_of_one_le_left power_pos.le digits_ge).trans_lt (value_lt.trans_le bound)
        have := (zpow_lt_zpow_iff_right₀ (by norm_num)).mp power_lt
        omega
      have product_finite :
          ((ofNat double.written.digits).times (powerOfTen power)).isFinite = true := by
        by_cases top : double.exponent = 971 ∧ 2 ^ 53 ≤ double.significand + 3
        · rcases written_largest top.1 top.2 with ⟨gap, gap_lt, written_eq⟩
          have largest_finite := largest_finite gap gap_lt
          rwa [← written_eq, exponent_eq, Int.ofNat_eq_natCast, Int.toNat_natCast] at largest_finite
        · exact isFinite_times digits_pos digits_le le (value_bounded fun top_eq => by omega)
      rw [Decimal.value, exponent_eq]
      exact ofDecimal?_ofNat digits_pos digits_le le product_finite

/-- A short decimal is scaled without loss, so that the double comes back. -/
theorem ofDecimal?_written_exact (finite : double.isFinite = true)
    (short : double.written.digits ≤ 2 ^ 53)
    (ge : -22 ≤ double.written.exponent) (le : double.written.exponent ≤ 22) :
    ofDecimal? double.written.digits double.written.exponent =
      some (ofMagnitude false double.magnitudeBits) := by
  rcases ofDecimal?_exact short ge le with ⟨numerator, denominator, positive, value_eq, scaled_eq⟩
  rw [scaled_eq, nearest, nearestMagnitude_of_written finite positive value_eq]

/-- What identifies a double is close to it. -/
theorem Identifies.near {value : ℚ} (identifies : double.Identifies value) :
    Near 1 1 value double.magnitude := by
  have below_le := double.below_le
  have power_pos : (0 : ℚ) < 2 ^ double.exponent := by positivity
  have half_pos := leastHalf_pos
  have off : |value - double.magnitude| ≤ 1 / 2 * 2 ^ double.exponent := by
    have low := identifies.low
    have high := identifies.high
    rw [magnitude, abs_le]
    constructor <;> nlinarith
  have magnitude_nonneg := double.magnitude_nonneg
  unfold Near precision
  refine off.trans ?_
  rcases double.parts.1.large with least | long
  · have half_eq : leastHalf = 1 / 2 * 2 ^ double.exponent := by
      have next : (-1075 : Int) = leastExponent - 1 := rfl
      rw [leastHalf, least, next, zpow_sub₀ two_ne_zero, zpow_one]
      ring
    linarith
  · have long : (2 : ℚ) ^ 52 ≤ double.significand := by
      rw [← cast_fractionCount]
      exact_mod_cast long
    have magnitude_ge : (2 : ℚ) ^ 52 * 2 ^ double.exponent ≤ double.magnitude := by
      rw [magnitude]
      gcongr
    linarith

theorem two_zpow_eq_halves : (2 : ℚ) ^ (-1072 : Int) = 8 * leastHalf := by
  have next : (-1072 : Int) = 3 + -1075 := rfl
  rw [leastHalf, next, zpow_add₀ two_ne_zero]
  norm_num

/-- What is close to a number that identifies a double is not far from the double. -/
theorem Near.of_identifies {value scaled : ℚ} (near : Near 6 3 scaled value)
    (identifies : double.Identifies value) :
    |scaled - double.magnitude| ≤ double.magnitude / 2 ^ 50 + 2 ^ (-1072 : Int) := by
  have near' := identifies.near
  have half_pos := leastHalf_pos
  have magnitude_nonneg := double.magnitude_nonneg
  rw [two_zpow_eq_halves]
  unfold Near precision at *
  rw [abs_le] at near near' ⊢
  constructor <;> linarith

/-- Scaling what is written for a finite double ends not far from the double. -/
theorem ofDecimal?_written_close (finite : double.isFinite = true) :
    ∃ scaled, ofDecimal? double.written.digits double.written.exponent = some scaled ∧
      scaled.isFinite = true ∧ scaled.isNegative = false ∧
      |scaled.magnitude - double.magnitude| ≤ double.magnitude / 2 ^ 50 + 2 ^ (-1072 : Int) := by
  cases zero : double.isZero with
  | true =>
      have written_eq := written_of_isZero zero
      have exact_eq := ofDecimal?_written_exact finite (by rw [written_eq]; decide)
        (by rw [written_eq]; decide) (by rw [written_eq]; decide)
      have bits_eq := magnitudeBits_ofMagnitude false double.magnitudeBits_lt
      refine ⟨_, exact_eq, ?_, isNegative_ofMagnitude false double.magnitudeBits_lt, ?_⟩
      · rw [isFinite_congr bits_eq, finite]
      · have magnitude_nonneg := double.magnitude_nonneg
        have half_pos := leastHalf_pos
        rw [magnitude_congr bits_eq, sub_self, abs_zero, two_zpow_eq_halves]
        positivity
  | false =>
      rcases ofDecimal?_written zero finite with ⟨scaled, scaled_eq, scaled_finite, positive, near⟩
      exact ⟨scaled, scaled_eq, scaled_finite, positive,
        near.of_identifies (written_spec zero finite).1⟩

end Scaled

end Deferral.Double

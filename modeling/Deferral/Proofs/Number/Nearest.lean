import Deferral.Proofs.Number.Shortest

/-!
# What the nearest double is

A number that is a double is its own nearest double, and any other is off by at most one part in
`2 ^ 53` or, where doubles lie densest, by half the smallest double. Only numbers from
`overflowBound` on have no finite double.
-/

namespace Deferral.Double

theorem nearestMagnitude_zero (denominator : Nat) : nearestMagnitude 0 denominator = 0 :=
  if_pos rfl

section Signs

variable {double other : Double}

theorem isNegative_ofMagnitude (negative : Bool)
    {magnitude : Nat} (small : magnitude < signWeight) :
    (ofMagnitude negative magnitude).isNegative = negative := by
  have weight_eq : signWeight = 9223372036854775808 := rfl
  rw [weight_eq] at small
  cases negative with
  | false =>
      simp only [isNegative, ofMagnitude, weight_eq, Bool.false_eq_true, if_false, Nat.add_zero,
        UInt64.toNat_ofNat', decide_eq_false_iff_not]
      omega
  | true =>
      simp only [isNegative, ofMagnitude, weight_eq, if_true, UInt64.toNat_ofNat',
        decide_eq_true_eq]
      omega

/-- A double is made of its sign and its magnitude. -/
theorem ofMagnitude_self (double : Double) :
    ofMagnitude double.isNegative double.magnitudeBits = double := by
  have weight_eq : signWeight = 9223372036854775808 := rfl
  have bits_lt := double.bits.toNat_lt
  have bits_eq : double.magnitudeBits + (if double.isNegative then signWeight else 0) =
      double.bits.toNat := by
    rw [magnitudeBits, isNegative, weight_eq]
    simp only [decide_eq_true_eq]
    split <;> omega
  rw [ofMagnitude, bits_eq, UInt64.ofNat_toNat]

theorem magnitudeBits_lt (double : Double) : double.magnitudeBits < signWeight :=
  Nat.mod_lt _ (by decide)

theorem infinityBits_lt : infinityBits < signWeight := by decide

theorem nearestMagnitude_le (numerator denominator : Nat) :
    nearestMagnitude numerator denominator ≤ infinityBits := by
  rcases Nat.eq_zero_or_pos numerator with rfl | positive
  · rw [nearestMagnitude_zero]
    exact Nat.zero_le _
  · rw [nearestMagnitude_of_pos positive]
    exact min_le_left _ _

theorem magnitudeBits_nearest (negative : Bool) (numerator denominator : Nat) :
    (nearest negative numerator denominator).magnitudeBits =
      nearestMagnitude numerator denominator :=
  magnitudeBits_ofMagnitude negative
    ((nearestMagnitude_le numerator denominator).trans_lt infinityBits_lt)

theorem isNegative_nearest (negative : Bool) (numerator denominator : Nat) :
    (nearest negative numerator denominator).isNegative = negative :=
  isNegative_ofMagnitude negative
    ((nearestMagnitude_le numerator denominator).trans_lt infinityBits_lt)

theorem isFinite_iff : double.isFinite = true ↔ double.magnitudeBits < infinityBits :=
  decide_eq_true_iff

theorem not_isInfinite (finite : double.isFinite = true) : double.isInfinite = false :=
  decide_eq_false (isFinite_iff.mp finite).ne

theorem isFinite_congr (same : double.magnitudeBits = other.magnitudeBits) :
    double.isFinite = other.isFinite := by
  rw [isFinite, isFinite, same]

theorem significand_congr (same : double.magnitudeBits = other.magnitudeBits) :
    double.significand = other.significand := by
  rw [significand, significand, exponentField, exponentField, fraction, fraction, same]

theorem exponent_congr (same : double.magnitudeBits = other.magnitudeBits) :
    double.exponent = other.exponent := by
  rw [exponent, exponent, exponentField, exponentField, same]

theorem magnitude_congr (same : double.magnitudeBits = other.magnitudeBits) :
    double.magnitude = other.magnitude := by
  rw [magnitude, magnitude, significand_congr same, exponent_congr same]

end Signs

section Values

variable {double : Double} {negative : Bool} {numerator denominator : Nat}

/-- Numbers from here on are too large for a finite double. -/
def overflowBound : ℚ := (2 ^ 53 - 1 / 2) * 2 ^ (971 : Int)

/-- The bound is a natural number. -/
theorem overflowBound_eq : overflowBound = ((2 ^ 54 - 1) * 2 ^ 970 : Nat) := by
  have power_eq : (2 : ℚ) ^ (971 : Int) = 2 ^ 970 * 2 := by
    rw [← pow_succ]
    exact zpow_natCast 2 971
  have less : 1 ≤ 2 ^ 54 := by decide
  rw [overflowBound, power_eq, Nat.cast_mul, Nat.cast_sub less, Nat.cast_pow, Nat.cast_pow]
  generalize (2 : ℚ) ^ 970 = unit
  norm_num
  ring

/-- A finite double is nearest to its own value. -/
theorem nearestMagnitude_of_magnitude (finite : double.isFinite = true) (positive : 0 < denominator)
    (value_eq : (numerator / denominator : ℚ) = double.magnitude) :
    nearestMagnitude numerator denominator = double.magnitudeBits := by
  have power_pos : (0 : ℚ) < 2 ^ double.exponent := by positivity
  cases zero : double.isZero with
  | true =>
      have bits_eq : double.magnitudeBits = 0 := by simpa [isZero] using zero
      have significand_eq : double.significand = 0 := by
        simp [Double.significand, exponentField, fraction, bits_eq]
      have numerator_eq : numerator = 0 := by
        rw [magnitude, significand_eq, Nat.cast_zero, zero_mul, div_eq_zero_iff] at value_eq
        have denominator_ne : (denominator : ℚ) ≠ 0 := by exact_mod_cast positive.ne'
        exact_mod_cast value_eq.resolve_right denominator_ne
      rw [numerator_eq, nearestMagnitude_zero, bits_eq]
  | false =>
      have below_pos : (0 : ℚ) < double.below := by
        rcases double.below_spec with ⟨below_eq, _⟩ | ⟨below_eq, _⟩ <;> rw [below_eq] <;> norm_num
      have low : (double.significand - double.below / 4) * 2 ^ double.exponent <
          double.magnitude := by
        rw [magnitude]
        nlinarith
      have high : double.magnitude < (double.significand + 1 / 2) * 2 ^ double.exponent := by
        rw [magnitude]
        nlinarith
      have identifies : double.Identifies (numerator / denominator) := by
        rw [value_eq]
        exact ⟨low.le, high.le, .inr ⟨low, high⟩⟩
      have value_pos := value_pos (significand_pos zero) identifies
      have numerator_pos : 0 < numerator := by
        by_contra zero
        rw [Nat.eq_zero_of_not_pos zero, Nat.cast_zero, zero_div] at value_pos
        exact lt_irrefl _ value_pos
      exact identifies.nearestMagnitude_eq finite numerator_pos positive

/-- A number that is not too large has a finite nearest double. -/
theorem nearestMagnitude_lt (positive : 0 < denominator)
    (small : (numerator / denominator : ℚ) < overflowBound) :
    nearestMagnitude numerator denominator < infinityBits := by
  rcases Nat.eq_zero_or_pos numerator with rfl | numerator_pos
  · rw [nearestMagnitude_zero]
    decide
  rcases nearestMagnitude_spec numerator_pos positive with
    ⟨exponent, significand, parts, rounds, _, low, nearest_eq⟩
  rw [nearest_eq]
  apply lt_of_le_of_lt (min_le_right _ _)
  have least_eq : leastExponent = -1074 := rfl
  have exponent_le : exponent ≤ 971 := by
    by_contra above
    have low := low.resolve_left (by omega)
    have power_le := two_zpow_le (show (971 : Int) + 1 ≤ exponent by omega)
    rw [zpow_add₀ two_ne_zero, zpow_one] at power_le
    have power_pos : (0 : ℚ) < 2 ^ (971 : Int) := by positivity
    rw [overflowBound] at small
    generalize (2 : ℚ) ^ (971 : Int) = unit at small power_le power_pos
    linarith
  have significand_le := parts.small
  have gap_eq : exponent < 971 ∨ exponent = 971 := by omega
  rcases gap_eq with less | rfl
  · have gap_le : (exponent - leastExponent).toNat + 1 ≤ 2045 := by omega
    have scaled := Nat.mul_le_mul_right fractionCount gap_le
    have count_pos := fractionCount_pos
    rw [Nat.add_mul] at scaled
    rw [magnitudeOf, infinityBits]
    omega
  · have power_pos : (0 : ℚ) < 2 ^ (971 : Int) := by positivity
    have scaled_lt : (numerator / denominator / 2 ^ (971 : Int) : ℚ) < 2 ^ 53 - 1 / 2 :=
      (div_lt_iff₀ power_pos).mpr small
    have near := rounds.low
    have bound : (significand : ℚ) < (2 * fractionCount : Nat) := by
      push_cast
      rw [cast_fractionCount]
      linarith
    have bound : significand < 2 * fractionCount := by exact_mod_cast bound
    have gap_eq : (971 - leastExponent).toNat = 2045 := rfl
    rw [magnitudeOf, gap_eq, infinityBits]
    omega

theorem isFinite_nearest (negative : Bool) (positive : 0 < denominator)
    (small : (numerator / denominator : ℚ) < overflowBound) :
    (nearest negative numerator denominator).isFinite = true := by
  rw [isFinite_iff, magnitudeBits_nearest]
  exact nearestMagnitude_lt positive small

/-- The value of a nearest double is a rounded significand at the exponent of the fraction. -/
theorem magnitude_nearest (numerator_pos : 0 < numerator) (positive : 0 < denominator)
    (finite : (nearest negative numerator denominator).isFinite = true) :
    ∃ exponent significand, Parts exponent significand ∧
      Rounds (numerator / denominator / (2 : ℚ) ^ exponent) significand ∧
      (numerator / denominator : ℚ) < 2 ^ 53 * 2 ^ exponent ∧
      (exponent = leastExponent ∨ 2 ^ 52 * (2 : ℚ) ^ exponent ≤ numerator / denominator) ∧
      (nearest negative numerator denominator).magnitude = significand * 2 ^ exponent := by
  rcases nearestMagnitude_spec numerator_pos positive with
    ⟨exponent, significand, parts, rounds, high, low, nearest_eq⟩
  refine ⟨exponent, significand, parts, rounds, high, low, magnitude_of_magnitudeOf parts ?_⟩
  rw [isFinite_iff, magnitudeBits_nearest, nearest_eq] at finite
  rw [magnitudeBits_nearest, nearest_eq]
  exact min_eq_right_of_lt ((min_lt_iff.mp finite).resolve_left (lt_irrefl _))

theorem magnitude_of_isZero (zero : double.magnitudeBits = 0) : double.magnitude = 0 := by
  have significand_eq : double.significand = 0 := by
    simp [Double.significand, exponentField, fraction, zero]
  rw [magnitude, significand_eq, Nat.cast_zero, zero_mul]

/-- A number with a significand of at most 53 bits is a double. -/
theorem magnitude_nearest_exact (positive : 0 < denominator)
    (finite : (nearest negative numerator denominator).isFinite = true) {significand : Nat}
    {exponent : Int} (value_eq : (numerator / denominator : ℚ) = significand * 2 ^ exponent)
    (short : significand ≤ 2 ^ 53) (least_le : leastExponent ≤ exponent) :
    (nearest negative numerator denominator).magnitude = significand * 2 ^ exponent := by
  rcases Nat.eq_zero_or_pos numerator with rfl | numerator_pos
  · rw [Nat.cast_zero, zero_div] at value_eq
    rw [← value_eq]
    exact magnitude_of_isZero (by rw [magnitudeBits_nearest, nearestMagnitude_zero])
  rcases magnitude_nearest numerator_pos positive finite with
    ⟨exponent', significand', parts', rounds', _, low', magnitude_eq⟩
  have power_pos : (0 : ℚ) < 2 ^ exponent := by positivity
  have short : (significand : ℚ) ≤ 2 ^ 53 := by exact_mod_cast short
  have exponent_le : exponent' ≤ exponent + 1 := by
    by_contra above
    have low' := low'.resolve_left (by omega)
    have power_le := two_zpow_le (show exponent + 2 ≤ exponent' by omega)
    rw [zpow_add₀ two_ne_zero] at power_le
    norm_num at power_le
    rw [value_eq] at low'
    nlinarith
  -- on the grid of the nearest double the number is a natural one, or it is the least of the
  -- longest
  have whole : ∃ number : Nat, (numerator / denominator / (2 : ℚ) ^ exponent') = number := by
    rw [value_eq]
    rcases exponent_le.lt_or_eq with less | rfl
    · rcases Int.le.dest (Int.lt_add_one_iff.mp less) with ⟨gap, rfl⟩
      refine ⟨significand * 2 ^ gap, ?_⟩
      rw [zpow_add₀ two_ne_zero, zpow_natCast]
      push_cast
      field_simp
    · have low' := low'.resolve_left (by omega)
      rw [value_eq, zpow_add₀ two_ne_zero, zpow_one] at low'
      have significand_eq : (significand : ℚ) = 2 ^ 53 := by nlinarith
      refine ⟨2 ^ 52, ?_⟩
      rw [significand_eq, zpow_add₀ two_ne_zero, zpow_one]
      push_cast
      field_simp
      norm_num
  rcases whole with ⟨number, number_eq⟩
  have rounds : Rounds (numerator / denominator / (2 : ℚ) ^ exponent') number := by
    rw [number_eq]
    exact ⟨by linarith, by linarith, .inr ⟨by linarith, by linarith⟩⟩
  have power_pos' : (0 : ℚ) < 2 ^ exponent' := by positivity
  rw [magnitude_eq, rounds'.unique rounds, ← value_eq, ← number_eq,
    div_mul_cancel₀ _ power_pos'.ne']

/-- Rounding is off by at most one part in `2 ^ 53`, and where doubles lie densest by at most half
the smallest one. -/
theorem magnitude_nearest_near (positive : 0 < denominator)
    (finite : (nearest negative numerator denominator).isFinite = true) :
    |(nearest negative numerator denominator).magnitude - numerator / denominator| ≤
        1 / 2 ^ 53 * (numerator / denominator) ∨
      (numerator / denominator : ℚ) < 2 ^ (-1022 : Int) ∧
        |(nearest negative numerator denominator).magnitude - numerator / denominator| ≤
            2 ^ (-1075 : Int) := by
  rcases Nat.eq_zero_or_pos numerator with rfl | numerator_pos
  · have zero : (nearest negative 0 denominator).magnitude = 0 :=
      magnitude_of_isZero (by rw [magnitudeBits_nearest, nearestMagnitude_zero])
    left
    rw [zero, Nat.cast_zero, zero_div]
    simp
  rcases magnitude_nearest numerator_pos positive finite with
    ⟨exponent, significand, _, rounds, high, low, magnitude_eq⟩
  have power_pos : (0 : ℚ) < 2 ^ exponent := by positivity
  have off : |(nearest negative numerator denominator).magnitude - numerator / denominator| ≤
      1 / 2 * 2 ^ exponent := by
    have low := (le_div_iff₀ power_pos).mp rounds.low
    have high := (div_le_iff₀ power_pos).mp rounds.high
    rw [magnitude_eq, abs_le]
    constructor <;> linarith
  by_cases normal : (2 : ℚ) ^ 52 * 2 ^ exponent ≤ numerator / denominator
  · left
    linarith
  · right
    obtain rfl := low.resolve_right normal
    have least_eq : leastExponent = -1074 := rfl
    have normal_eq : (2 : ℚ) ^ 52 * 2 ^ leastExponent = 2 ^ (-1022 : Int) := by
      rw [least_eq, ← zpow_natCast, ← zpow_add₀ two_ne_zero]
      rfl
    have half_eq : 1 / 2 * (2 : ℚ) ^ leastExponent = 2 ^ (-1075 : Int) := by
      have next : (-1075 : Int) = leastExponent - 1 := rfl
      rw [next, zpow_sub₀ two_ne_zero, zpow_one]
      ring
    exact ⟨normal_eq ▸ not_le.mp normal, half_eq ▸ off⟩

end Values

end Deferral.Double

import Mathlib.Algebra.Order.Field.Power
import Mathlib.Data.Rat.Cast.Order
import Mathlib.Tactic.FieldSimp
import Mathlib.Tactic.Linarith
import Mathlib.Tactic.Positivity
import Mathlib.Tactic.Ring
import Deferral.Number.Shortest

/-!
# Rounding to the nearest double

Up to its sign a finite double is a significand times a power of two. A fraction is brought to the
power of two at which its significand has 53 bits, unless this is below the least power, and the
significand is rounded. So every fraction that lies in the interval around a double is rounded to
the double.
-/

namespace Deferral.Double

/-- A natural number nearest to a fraction, and the even one of two. -/
structure Rounds (fraction : ℚ) (number : Nat) : Prop where
  low : (number : ℚ) - 1 / 2 ≤ fraction
  high : fraction ≤ number + 1 / 2
  even : number % 2 = 0 ∨ ((number : ℚ) - 1 / 2 < fraction ∧ fraction < number + 1 / 2)

theorem Rounds.le {fraction : ℚ} {first second : Nat} (rounds : Rounds fraction first)
    (rounds' : Rounds fraction second) : second ≤ first := by
  by_contra above
  have next_le : (first : ℚ) + 1 ≤ second := by exact_mod_cast Nat.lt_of_not_le above
  have low := rounds'.low
  have high := rounds.high
  have next : second = first + 1 := by
    have next : (second : ℚ) = first + 1 := by linarith
    exact_mod_cast next
  rcases rounds.even with even | ⟨_, strict⟩
  · rcases rounds'.even with even' | ⟨strict, _⟩
    · omega
    · linarith
  · linarith

theorem Rounds.unique {fraction : ℚ} {first second : Nat} (rounds : Rounds fraction first)
    (rounds' : Rounds fraction second) : first = second :=
  Nat.le_antisymm (rounds'.le rounds) (rounds.le rounds')

theorem roundDiv_rounds (numerator : Nat) {denominator : Nat} (positive : 0 < denominator) :
    Rounds (numerator / denominator) (roundDiv numerator denominator) := by
  have positive' : (0 : ℚ) < denominator := by exact_mod_cast positive
  generalize quotient_eq : numerator / denominator = quotient
  generalize rest_eq : numerator % denominator = rest
  have fraction_eq : (numerator : ℚ) / denominator = quotient + rest / denominator := by
    have parts : (numerator : ℚ) = denominator * quotient + rest := by
      rw [← quotient_eq, ← rest_eq]
      exact_mod_cast (Nat.div_add_mod numerator denominator).symm
    rw [parts]
    field_simp
  have rest_nonneg : (0 : ℚ) ≤ rest / denominator := by positivity
  have rest_lt : (rest : ℚ) / denominator < 1 := by
    rw [div_lt_one positive']
    exact_mod_cast rest_eq ▸ Nat.mod_lt numerator positive
  have half_lt_iff : (rest : ℚ) / denominator < 1 / 2 ↔ 2 * rest < denominator := by
    rw [div_lt_div_iff₀ positive' (by norm_num), mul_comm _ (2 : ℚ), one_mul]
    exact_mod_cast Iff.rfl
  have lt_half_iff : 1 / 2 < (rest : ℚ) / denominator ↔ denominator < 2 * rest := by
    rw [div_lt_div_iff₀ (by norm_num) positive', mul_comm _ (2 : ℚ), one_mul]
    exact_mod_cast Iff.rfl
  have next_eq : ((quotient + 1 : Nat) : ℚ) = quotient + 1 := Nat.cast_succ quotient
  rw [fraction_eq]
  simp only [roundDiv, quotient_eq, rest_eq]
  split
  · rename_i below
    have below := half_lt_iff.mpr below
    exact ⟨by linarith, by linarith, .inr ⟨by linarith, by linarith⟩⟩
  · rename_i not_below
    split
    · rename_i above
      have above := lt_half_iff.mpr above
      exact ⟨by linarith, by linarith, .inr ⟨by linarith, by linarith⟩⟩
    · rename_i not_above
      have half : (rest : ℚ) / denominator = 1 / 2 :=
        le_antisymm (not_lt.mp (lt_half_iff.not.mpr not_above))
          (not_lt.mp (half_lt_iff.not.mpr not_below))
      rw [half]
      rcases Nat.mod_two_eq_zero_or_one quotient with even | odd
      · rw [even, Nat.add_zero]
        exact ⟨by linarith, by linarith, .inl even⟩
      · rw [odd]
        exact ⟨by linarith, by linarith, .inl (by omega)⟩

/-- The value of a fraction. -/
def valueOf (fraction : Nat × Nat) : ℚ := fraction.1 / fraction.2

theorem cast_pow (base power : Nat) : ((Nat.pow base power : Nat) : ℚ) = (base : ℚ) ^ power :=
  Nat.cast_pow base power

section Scaling

variable {numerator denominator : Nat}

theorem scale_positive (numerator : Nat) (positive : 0 < denominator) (exponent : Int) :
    0 < (scale numerator denominator exponent).2 := by
  cases exponent with
  | ofNat power => exact Nat.mul_pos positive (Nat.pow_pos (by decide))
  | negSucc power => exact positive

theorem valueOf_scale (numerator denominator : Nat) (exponent : Int) :
    valueOf (scale numerator denominator exponent) =
      numerator / denominator / (2 : ℚ) ^ exponent := by
  cases exponent with
  | ofNat power =>
      simp only [valueOf, scale, Nat.cast_mul, cast_pow, Nat.cast_ofNat, Int.ofNat_eq_natCast,
        zpow_natCast, div_div]
  | negSucc power =>
      simp only [valueOf, scale, Nat.cast_mul, cast_pow, Nat.cast_ofNat, zpow_negSucc,
        div_inv_eq_mul]
      ring

/-- A fraction lies between the powers of two that its logarithms tell. -/
theorem log2_bounds (positive : 0 < numerator) (positive' : 0 < denominator) :
    (2 : ℚ) ^ ((numerator.log2 : Int) - denominator.log2 - 1) < numerator / denominator ∧
      (numerator / denominator : ℚ) < 2 ^ ((numerator.log2 : Int) - denominator.log2 + 1) := by
  have cast_positive : (0 : ℚ) < denominator := by exact_mod_cast positive'
  have low : (2 : ℚ) ^ numerator.log2 ≤ numerator := by
    exact_mod_cast Nat.log2_self_le positive.ne'
  have high : (numerator : ℚ) < 2 ^ (numerator.log2 + 1) := by
    exact_mod_cast Nat.lt_log2_self
  have low' : (2 : ℚ) ^ denominator.log2 ≤ denominator := by
    exact_mod_cast Nat.log2_self_le positive'.ne'
  have high' : (denominator : ℚ) < 2 ^ (denominator.log2 + 1) := by
    exact_mod_cast Nat.lt_log2_self
  constructor
  · rw [lt_div_iff₀ cast_positive]
    calc (2 : ℚ) ^ ((numerator.log2 : Int) - denominator.log2 - 1) * denominator
        < 2 ^ ((numerator.log2 : Int) - denominator.log2 - 1) * 2 ^ (denominator.log2 + 1) := by
          gcongr
      _ = 2 ^ numerator.log2 := by
          rw [← zpow_natCast, ← zpow_natCast, ← zpow_add₀ two_ne_zero]
          congr 1
          push_cast
          ring
      _ ≤ numerator := low
  · rw [div_lt_iff₀ cast_positive]
    calc (numerator : ℚ) < 2 ^ (numerator.log2 + 1) := high
      _ = 2 ^ ((numerator.log2 : Int) - denominator.log2 + 1) * 2 ^ denominator.log2 := by
          rw [← zpow_natCast, ← zpow_natCast, ← zpow_add₀ two_ne_zero]
          congr 1
          push_cast
          ring
      _ ≤ 2 ^ ((numerator.log2 : Int) - denominator.log2 + 1) * denominator := by
          gcongr

theorem le_valueOf_iff {fraction : Nat × Nat} (positive : 0 < fraction.2) (bound : Nat) :
    (bound : ℚ) ≤ valueOf fraction ↔ fraction.2 * bound ≤ fraction.1 := by
  have cast_positive : (0 : ℚ) < fraction.2 := by exact_mod_cast positive
  rw [valueOf, le_div_iff₀ cast_positive, mul_comm]
  exact_mod_cast Iff.rfl

/-- The exponent of a fraction leaves it a significand of at most 53 bits, and not less unless it is
the least exponent. -/
theorem scaleExponent_spec (positive : 0 < numerator) (positive' : 0 < denominator) :
    leastExponent ≤ scaleExponent numerator denominator ∧
      (numerator / denominator : ℚ) < 2 ^ 53 * 2 ^ scaleExponent numerator denominator ∧
      (scaleExponent numerator denominator = leastExponent ∨
        2 ^ 52 * (2 : ℚ) ^ scaleExponent numerator denominator ≤ numerator / denominator) := by
  rcases log2_bounds positive positive' with ⟨low, high⟩
  generalize guess_eq : (numerator.log2 : Int) - denominator.log2 - 53 = guess
  have power_add (shift : Nat) (exponent : Int) :
      (2 : ℚ) ^ shift * 2 ^ exponent = 2 ^ (exponent + shift) := by
    rw [zpow_add₀ two_ne_zero, zpow_natCast, mul_comm]
  have low : 2 ^ 52 * (2 : ℚ) ^ guess < numerator / denominator := by
    rw [power_add, ← guess_eq]
    convert low using 2
    push_cast
    ring
  have high : (numerator / denominator : ℚ) < 2 ^ 53 * 2 ^ (guess + 1) := by
    rw [power_add, ← guess_eq]
    convert high using 2
    push_cast
    ring
  have long_iff : (scale numerator denominator guess).2 * (2 * fractionCount) ≤
      (scale numerator denominator guess).1 ↔
        2 ^ 53 * (2 : ℚ) ^ guess ≤ numerator / denominator := by
    have count_eq : ((2 * fractionCount : Nat) : ℚ) = 2 ^ 53 := by norm_num [fractionCount]
    rw [← le_valueOf_iff (scale_positive _ positive' _), valueOf_scale, count_eq,
      le_div_iff₀ (by positivity)]
  -- the exponent with 53 bits, before it is held against the least one
  have exact_spec : ∃ exponent, scaleExponent numerator denominator = max exponent leastExponent ∧
      2 ^ 52 * (2 : ℚ) ^ exponent ≤ numerator / denominator ∧
      (numerator / denominator : ℚ) < 2 ^ 53 * 2 ^ exponent := by
    by_cases long : (scale numerator denominator guess).2 * (2 * fractionCount) ≤
        (scale numerator denominator guess).1
    · refine ⟨guess + 1, ?_, ?_, high⟩
      · simp only [scaleExponent, guess_eq, if_pos long]
      · have double_eq : (2 : ℚ) ^ 52 * 2 ^ (guess + 1) = 2 ^ 53 * 2 ^ guess := by
          rw [zpow_add₀ two_ne_zero]
          ring
        exact double_eq.trans_le (long_iff.mp long)
    · refine ⟨guess, ?_, low.le, not_le.mp (long_iff.not.mp long)⟩
      simp only [scaleExponent, guess_eq, if_neg long]
  rcases exact_spec with ⟨exponent, max_eq, low, high⟩
  rw [max_eq]
  refine ⟨le_max_right _ _, ?_, ?_⟩
  · calc (numerator / denominator : ℚ) < 2 ^ 53 * 2 ^ exponent := high
      _ ≤ 2 ^ 53 * 2 ^ max exponent leastExponent := by
        gcongr
        · norm_num
        · exact le_max_left _ _
  · rcases le_total exponent leastExponent with below | above
    · exact .inl (max_eq_right below)
    · rw [max_eq_left above]
      exact .inr low

end Scaling

/-- A significand at an exponent, which may be one bit longer than the significand of a double. -/
structure Parts (exponent : Int) (significand : Nat) : Prop where
  least_le : leastExponent ≤ exponent
  small : significand ≤ 2 * fractionCount
  large : exponent = leastExponent ∨ fractionCount ≤ significand

/-- The magnitude that is made of a significand and an exponent. -/
def magnitudeOf (exponent : Int) (significand : Nat) : Nat :=
  (exponent - leastExponent).toNat * fractionCount + significand

/-- What is left to be done when a fraction has been scaled. -/
theorem assembled_eq (scaled : Nat × Nat) (exponent : Int) :
    (match scaled with
      | (numerator, denominator) => min infinityBits
        ((exponent - leastExponent).toNat * fractionCount + roundDiv numerator denominator)) =
      min infinityBits (magnitudeOf exponent (roundDiv scaled.1 scaled.2)) := by
  rcases scaled with ⟨numerator, denominator⟩
  unfold magnitudeOf
  rfl

theorem nearestMagnitude_of_pos {numerator : Nat} (positive : 0 < numerator) (denominator : Nat) :
    nearestMagnitude numerator denominator = min infinityBits
      (magnitudeOf (scaleExponent numerator denominator)
        (roundDiv (scale numerator denominator (scaleExponent numerator denominator)).1
          (scale numerator denominator (scaleExponent numerator denominator)).2)) := by
  unfold nearestMagnitude
  rw [if_neg positive.ne']
  generalize scaleExponent numerator denominator = exponent
  exact assembled_eq (scale numerator denominator exponent) exponent

theorem cast_fractionCount : (fractionCount : ℚ) = 2 ^ 52 := by
  norm_num [fractionCount]

/-- What is nearest to a fraction is made of an exponent and the rounded significand. -/
theorem nearestMagnitude_spec {numerator denominator : Nat} (positive : 0 < numerator)
    (positive' : 0 < denominator) :
    ∃ exponent significand, Parts exponent significand ∧
      Rounds (numerator / denominator / (2 : ℚ) ^ exponent) significand ∧
      (numerator / denominator : ℚ) < 2 ^ 53 * 2 ^ exponent ∧
      (exponent = leastExponent ∨ 2 ^ 52 * (2 : ℚ) ^ exponent ≤ numerator / denominator) ∧
      nearestMagnitude numerator denominator =
        min infinityBits (magnitudeOf exponent significand) := by
  have nearest_eq := nearestMagnitude_of_pos positive denominator
  rcases scaleExponent_spec positive positive' with ⟨least_le, high, low⟩
  generalize scaleExponent numerator denominator = exponent at least_le high low nearest_eq
  have rounds := roundDiv_rounds (scale numerator denominator exponent).1
    (scale_positive numerator positive' exponent)
  have value_eq := valueOf_scale numerator denominator exponent
  rw [valueOf] at value_eq
  rw [value_eq] at rounds
  generalize roundDiv (scale numerator denominator exponent).1
    (scale numerator denominator exponent).2 = significand at rounds nearest_eq
  have power_positive : (0 : ℚ) < 2 ^ exponent := by positivity
  refine ⟨exponent, significand, ⟨least_le, ?_, ?_⟩, rounds, high, low, nearest_eq⟩
  · have scaled_lt : (numerator / denominator / 2 ^ exponent : ℚ) < 2 ^ 53 :=
      (div_lt_iff₀ power_positive).mpr high
    have near := rounds.low
    have bound : (significand : ℚ) < (2 * fractionCount + 1 : Nat) := by
      push_cast
      rw [cast_fractionCount]
      linarith
    exact Nat.lt_succ_iff.mp (by exact_mod_cast bound)
  · refine low.imp_right fun low => ?_
    have le_scaled : (2 : ℚ) ^ 52 ≤ numerator / denominator / 2 ^ exponent :=
      (le_div_iff₀ power_positive).mpr low
    have near := rounds.high
    have bound : (fractionCount : ℚ) < (significand + 1 : Nat) := by
      push_cast
      rw [cast_fractionCount]
      linarith
    exact Nat.lt_succ_iff.mp (by exact_mod_cast bound)

theorem fractionCount_pos : 0 < fractionCount := by decide

section Magnitudes

variable {double : Double} {exponent : Int} {significand : Nat}

/-- A finite double, up to its sign. -/
def magnitude (double : Double) : ℚ := double.significand * 2 ^ double.exponent

theorem magnitudeBits_ofMagnitude (negative : Bool)
    {magnitude : Nat} (small : magnitude < signWeight) :
    (ofMagnitude negative magnitude).magnitudeBits = magnitude := by
  have weight_eq : signWeight = 9223372036854775808 := rfl
  rw [weight_eq] at small
  cases negative with
  | false =>
      simp only [magnitudeBits, ofMagnitude, weight_eq, Bool.false_eq_true, if_false, Nat.add_zero,
        UInt64.toNat_ofNat']
      omega
  | true =>
      simp only [magnitudeBits, ofMagnitude, weight_eq, if_true, UInt64.toNat_ofNat']
      omega

theorem toNat_ofNat_sub (gap : Nat) : ((leastExponent + gap) - leastExponent).toNat = gap := by
  omega

/-- The parts of a double are those that its magnitude is made of. -/
theorem parts_of_magnitudeOf (parts : Parts exponent significand)
    (short : significand < 2 * fractionCount)
    (bits_eq : double.magnitudeBits = magnitudeOf exponent significand) :
    double.significand = significand ∧ double.exponent = exponent := by
  rcases Int.le.dest parts.least_le with ⟨gap, rfl⟩
  rw [magnitudeOf, toNat_ofNat_sub] at bits_eq
  rcases Nat.lt_or_ge significand fractionCount with below | above
  · have least : gap = 0 := by
      rcases parts.large with least | large
      · omega
      · omega
    subst least
    rw [Nat.zero_mul, Nat.zero_add] at bits_eq
    have field_eq : double.exponentField = 0 := by
      rw [exponentField, bits_eq, Nat.div_eq_of_lt below]
    have fraction_eq : double.fraction = significand := by
      rw [Double.fraction, bits_eq, Nat.mod_eq_of_lt below]
    simp only [Double.significand, Double.exponent, field_eq, if_true, fraction_eq]
    exact ⟨trivial, by simp⟩
  · rcases Nat.exists_eq_add_of_le above with ⟨fraction, rfl⟩
    have fraction_lt : fraction < fractionCount := by omega
    have bits_eq : double.magnitudeBits = fraction + (gap + 1) * fractionCount := by
      rw [bits_eq, Nat.add_mul]
      omega
    have field_eq : double.exponentField = gap + 1 := by
      rw [exponentField, bits_eq, Nat.add_mul_div_right _ _ fractionCount_pos,
        Nat.div_eq_of_lt fraction_lt, Nat.zero_add]
    have fraction_eq : double.fraction = fraction := by
      rw [Double.fraction, bits_eq, Nat.add_mul_mod_self_right, Nat.mod_eq_of_lt fraction_lt]
    have not_zero : gap + 1 ≠ 0 := by omega
    simp only [Double.significand, Double.exponent, field_eq, if_neg not_zero, fraction_eq]
    refine ⟨trivial, ?_⟩
    simp only [leastExponent]
    omega

/-- What is made of an exponent and a significand has the value of these, also where the significand
carries into the exponent. -/
theorem magnitude_of_magnitudeOf (parts : Parts exponent significand)
    (bits_eq : double.magnitudeBits = magnitudeOf exponent significand) :
    double.magnitude = significand * 2 ^ exponent := by
  rcases Nat.lt_or_ge significand (2 * fractionCount) with short | long
  · rcases parts_of_magnitudeOf parts short bits_eq with ⟨significand_eq, exponent_eq⟩
    rw [magnitude, significand_eq, exponent_eq]
  · have significand_eq : significand = 2 * fractionCount := Nat.le_antisymm parts.small long
    have least_le := parts.least_le
    have carried : Parts (exponent + 1) fractionCount :=
      ⟨by omega, by omega, .inr le_rfl⟩
    have bits_eq : double.magnitudeBits = magnitudeOf (exponent + 1) fractionCount := by
      have next : (exponent + 1 - leastExponent).toNat = (exponent - leastExponent).toNat + 1 := by
        omega
      rw [bits_eq, significand_eq, magnitudeOf, magnitudeOf, next, Nat.add_mul]
      omega
    have small : fractionCount < 2 * fractionCount := by
      have := fractionCount_pos
      omega
    rcases parts_of_magnitudeOf carried small bits_eq with ⟨fraction_eq, exponent_eq⟩
    rw [magnitude, fraction_eq, exponent_eq, significand_eq, zpow_add₀ two_ne_zero]
    push_cast
    ring

/-- Every double is made of its exponent and its significand. -/
theorem parts (double : Double) :
    Parts double.exponent double.significand ∧ double.significand < 2 * fractionCount ∧
      double.magnitudeBits = magnitudeOf double.exponent double.significand := by
  have fraction_lt : double.fraction < fractionCount := Nat.mod_lt _ fractionCount_pos
  have bits_eq : fractionCount * double.exponentField + double.fraction = double.magnitudeBits :=
    Nat.div_add_mod _ _
  cases field_eq : double.exponentField with
  | zero =>
      rw [field_eq, Nat.mul_zero, Nat.zero_add] at bits_eq
      simp only [Double.significand, Double.exponent, field_eq, if_true, magnitudeOf, sub_self,
        Int.toNat_zero, Nat.zero_mul, Nat.zero_add]
      exact ⟨⟨le_rfl, by omega, .inl rfl⟩, by omega, bits_eq.symm⟩
  | succ field =>
      rw [field_eq, Nat.mul_comm, Nat.add_mul] at bits_eq
      have not_zero : field + 1 ≠ 0 := by omega
      have exponent_eq : ((field + 1 : Nat) : Int) - 1075 = leastExponent + field := by
        simp only [leastExponent]
        omega
      simp only [Double.significand, Double.exponent, field_eq, if_neg not_zero, exponent_eq,
        magnitudeOf, toNat_ofNat_sub]
      exact ⟨⟨by omega, by omega, .inr (by omega)⟩, by omega, by omega⟩

theorem significand_lt (double : Double) : (double.significand : ℚ) + 1 ≤ 2 ^ 53 := by
  have short : ((double.significand + 1 : Nat) : ℚ) ≤ (2 * fractionCount : Nat) := by
    exact_mod_cast double.parts.2.1
  push_cast at short
  rw [cast_fractionCount] at short
  linarith

theorem significand_pos (not_zero : double.isZero = false) : 0 < double.significand := by
  rcases double.parts with ⟨parts, _, bits_eq⟩
  by_contra zero
  have significand_eq := Nat.eq_zero_of_not_pos zero
  have least : double.exponent = leastExponent := by
    refine parts.large.resolve_right ?_
    rw [significand_eq]
    exact not_le.mpr fractionCount_pos
  rw [significand_eq, least, magnitudeOf, sub_self, Int.toNat_zero, Nat.zero_mul,
    Nat.zero_add] at bits_eq
  simp [isZero, bits_eq] at not_zero

end Magnitudes

section Identifying

/-- How far below the significand the interval begins, in quarters. -/
def below (double : Double) : Nat :=
  if double.fraction = 0 ∧ 1 < double.exponentField then 1 else 2

/-- A fraction lies in the interval of numbers that round to a double. -/
structure Identifies (double : Double) (fraction : ℚ) : Prop where
  low : (double.significand - double.below / 4) * 2 ^ double.exponent ≤ fraction
  high : fraction ≤ (double.significand + 1 / 2) * 2 ^ double.exponent
  even : double.significand % 2 = 0 ∨
    ((double.significand - double.below / 4) * 2 ^ double.exponent < fraction ∧
      fraction < (double.significand + 1 / 2) * 2 ^ double.exponent)

variable {double : Double} {numerator denominator : Nat}

/-- The interval begins a quarter of a unit below the least significand of an exponent that is not
the least one, and half a unit below every other significand. -/
theorem below_spec (double : Double) :
    (double.below = 1 ∧ double.significand = fractionCount ∧ leastExponent < double.exponent) ∨
      (double.below = 2 ∧
        (double.significand = fractionCount → double.exponent = leastExponent)) := by
  have fraction_lt : double.fraction < fractionCount := Nat.mod_lt _ fractionCount_pos
  have least_eq : leastExponent = -1074 := rfl
  unfold below Double.significand Double.exponent
  by_cases zero : double.exponentField = 0
  · refine .inr ⟨if_neg (by omega), fun _ => ?_⟩
    rw [if_pos zero]
  · rw [if_neg zero, if_neg zero]
    by_cases bottom : double.fraction = 0 ∧ 1 < double.exponentField
    · exact .inl ⟨if_pos bottom, by omega, by omega⟩
    · exact .inr ⟨if_neg bottom, by omega⟩

theorem below_le (double : Double) : (double.below : ℚ) / 4 ≤ 1 / 2 := by
  rcases double.below_spec with ⟨below_eq, _⟩ | ⟨below_eq, _⟩
  · rw [below_eq]
    norm_num
  · rw [below_eq]
    norm_num

theorem magnitudeOf_carry {exponent : Int} (above : leastExponent < exponent) :
    magnitudeOf (exponent - 1) (2 * fractionCount) = magnitudeOf exponent fractionCount := by
  have next : (exponent - leastExponent).toNat =
      (exponent - 1 - leastExponent).toNat + 1 := by omega
  rw [magnitudeOf, magnitudeOf, next, Nat.add_mul]
  omega

theorem two_zpow_le {first second : Int} (le : first ≤ second) : (2 : ℚ) ^ first ≤ 2 ^ second :=
  zpow_le_zpow_right₀ one_le_two le

section Exponents

variable {fraction : ℚ} {significand : Nat} {exponent exponent' : Int}

/-- The significand of a fraction does not get longer than that of a double close to it. -/
theorem exponent_le (least_le : leastExponent ≤ exponent) (short : (significand : ℚ) + 1 ≤ 2 ^ 53)
    (high : fraction ≤ (significand + 1 / 2) * 2 ^ exponent)
    (low' : exponent' = leastExponent ∨ 2 ^ 52 * (2 : ℚ) ^ exponent' ≤ fraction) :
    exponent' ≤ exponent := by
  by_contra above
  have next_le : exponent + 1 ≤ exponent' := by omega
  have power_pos : (0 : ℚ) < 2 ^ exponent := by positivity
  rcases low' with least | low'
  · omega
  · have power_le := two_zpow_le next_le
    rw [zpow_add₀ two_ne_zero, zpow_one] at power_le
    nlinarith

/-- Where the significand of a fraction gets shorter than that of a double close to it, the double
is the one above all significands that are so short. -/
theorem exponent_eq_sub_one {gap : ℚ} (gap_le : gap ≤ 1 / 2) (long : fractionCount ≤ significand)
    (low : (significand - gap) * 2 ^ exponent ≤ fraction)
    (high' : fraction < 2 ^ 53 * (2 : ℚ) ^ exponent') (less : exponent' < exponent) :
    exponent' = exponent - 1 ∧ significand = fractionCount := by
  have power_pos : (0 : ℚ) < 2 ^ exponent := by positivity
  have long : (2 : ℚ) ^ 52 ≤ significand := by
    rw [← cast_fractionCount]
    exact_mod_cast long
  constructor
  · by_contra other
    have power_le := two_zpow_le (show exponent' ≤ exponent - 2 by omega)
    rw [zpow_sub₀ two_ne_zero] at power_le
    norm_num at power_le
    nlinarith
  · have power_le := two_zpow_le (show exponent' ≤ exponent - 1 by omega)
    rw [zpow_sub₀ two_ne_zero, zpow_one] at power_le
    have near : (significand : ℚ) - gap < 2 ^ 52 := by
      have below : (significand - gap) * 2 ^ exponent < 2 ^ 52 * (2 : ℚ) ^ exponent := by
        linarith
      exact lt_of_mul_lt_mul_right below power_pos.le
    have bound : ((significand : Nat) : ℚ) < (fractionCount + 1 : Nat) := by
      push_cast
      rw [cast_fractionCount]
      linarith
    have bound : significand < fractionCount + 1 := by exact_mod_cast bound
    omega

end Exponents

/-- What lies in the interval of a double is rounded to the double. -/
theorem Identifies.nearestMagnitude_eq (identifies : double.Identifies (numerator / denominator))
    (finite : double.isFinite = true) (positive : 0 < numerator) (positive' : 0 < denominator) :
    nearestMagnitude numerator denominator = double.magnitudeBits := by
  have bits_lt : double.magnitudeBits < infinityBits := by simpa [isFinite] using finite
  rcases double.parts with ⟨parts, _, bits_eq⟩
  rcases nearestMagnitude_spec positive positive' with
    ⟨exponent, significand, parts', rounds, high', low', nearest_eq⟩
  rcases identifies with ⟨low, high, even⟩
  generalize (numerator / denominator : ℚ) = fraction at *
  have short := double.significand_lt
  have gap_le := double.below_le
  suffices same : magnitudeOf exponent significand = double.magnitudeBits by
    rw [nearest_eq, same]
    exact min_eq_right bits_lt.le
  rw [bits_eq]
  have power_pos : (0 : ℚ) < 2 ^ exponent := by positivity
  rcases (exponent_le parts.least_le short high low').lt_or_eq with less | rfl
  · have long : fractionCount ≤ double.significand := by
      have := parts'.least_le
      exact parts.large.resolve_left (by omega)
    rcases exponent_eq_sub_one gap_le long low high' less with ⟨exponent_eq, significand_eq⟩
    have above : leastExponent < double.exponent := by
      have := parts'.least_le
      omega
    have below_eq : double.below = 1 := by
      rcases double.below_spec with ⟨below_eq, _⟩ | ⟨_, least⟩
      · exact below_eq
      · have := least significand_eq
        omega
    have half : (2 : ℚ) ^ double.exponent = 2 * 2 ^ exponent := by
      rw [exponent_eq, zpow_sub₀ two_ne_zero, zpow_one]
      ring
    have carried : Rounds (fraction / 2 ^ exponent) (2 * fractionCount) := by
      rw [significand_eq, below_eq, half, cast_fractionCount] at low
      refine ⟨?_, ?_, .inl (by omega)⟩
      · rw [le_div_iff₀ power_pos]
        push_cast at low ⊢
        rw [cast_fractionCount]
        linarith
      · rw [div_le_iff₀ power_pos]
        push_cast
        rw [cast_fractionCount]
        nlinarith
    rw [rounds.unique carried, significand_eq, exponent_eq, magnitudeOf_carry above]
  · have near : Rounds (fraction / 2 ^ double.exponent) double.significand := by
      refine ⟨?_, ?_, even.imp_right fun strict => ⟨?_, ?_⟩⟩
      · rw [le_div_iff₀ power_pos]
        nlinarith
      · rw [div_le_iff₀ power_pos]
        exact high
      · rw [lt_div_iff₀ power_pos]
        nlinarith [strict.1]
      · rw [div_lt_iff₀ power_pos]
        exact strict.2
    rw [rounds.unique near]

end Identifying

end Deferral.Double

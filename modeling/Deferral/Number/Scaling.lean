import Deferral.Number.Double

/-!
# Scaling by powers of ten

A decimal number is read as a significand of at most 64 bits and a power of ten. The significand is
rounded to a double first, and multiplied or divided by the double nearest to the power after that,
so two roundings can add up and the outcome need not be the double nearest to the number as written.
A power beyond `10 ^ 308` has no double of its own: a number that is too large is refused, and one
that is too small is brought down in several steps.
-/

namespace Deferral.Double

/-- The largest power of ten that is a double. -/
def largestPower : Nat := 308

/-- The double that is nearest to a power of ten. -/
def powerOfTen (power : Nat) : Double := ofNat (Nat.pow 10 power)

/-- Bring a double down by `10 ^ power`, at most `largestPower` places at a time. -/
def shrink (double : Double) (power : Nat) : Double :=
  if power ≤ largestPower then double.dividedBy (powerOfTen power)
  else if double.isZero then double
  else shrink (double.dividedBy (powerOfTen largestPower)) (power - largestPower)
termination_by power
decreasing_by simp only [largestPower] at *; omega

/-- A significand times a power of ten, if it is not too large to be finite. -/
def ofDecimal? (significand : Nat) (exponent : Int) : Option Double :=
  match exponent with
  | .negSucc power => some ((ofNat significand).shrink (power + 1))
  | .ofNat power =>
    let double := ofNat significand
    if power ≤ largestPower then
      let product := double.times (powerOfTen power)
      if product.isInfinite then none else some product
    else if double.isZero then some double
    else none

end Deferral.Double

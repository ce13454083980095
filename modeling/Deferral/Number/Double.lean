/-!
# Binary floating-point numbers

A double is its 64 bits: a sign, an eleven-bit exponent and a fraction. Everything that is computed
with doubles here is computed exactly on natural numbers and then rounded once, to the nearest
double and to the even one of two that are equally near. So the arithmetic of this module can be
reasoned about as arithmetic of naturals.
-/

namespace Deferral

/-- A 64-bit floating-point number. -/
structure Double where
  bits : UInt64
  deriving DecidableEq, Repr, Inhabited

namespace Double

/-- The weight of the sign bit. -/
def signWeight : Nat := Nat.pow 2 63

/-- The weight of the least exponent bit: the number of fractions. -/
def fractionCount : Nat := Nat.pow 2 52

/-- The exponent of the least bit of the smallest doubles. -/
def leastExponent : Int := -1074

/-- The bits of a double but for its sign. -/
def magnitudeBits (double : Double) : Nat := double.bits.toNat % signWeight

/-- The bits of the exponent. -/
def exponentField (double : Double) : Nat := double.magnitudeBits / fractionCount

/-- The bits of the fraction. -/
def fraction (double : Double) : Nat := double.magnitudeBits % fractionCount

/-- The sign bit is set, which it also is for negative zero. -/
def isNegative (double : Double) : Bool := signWeight ≤ double.bits.toNat

/-- The bits of infinity, which no finite double reaches. -/
def infinityBits : Nat := 2047 * fractionCount

/-- Neither infinite nor not a number. -/
def isFinite (double : Double) : Bool := double.magnitudeBits < infinityBits

/-- The sign bit aside, the double is infinite. -/
def isInfinite (double : Double) : Bool := double.magnitudeBits = infinityBits

/-- Zero of either sign. -/
def isZero (double : Double) : Bool := double.magnitudeBits = 0

/-- A finite double is, up to its sign, `significand * 2 ^ exponent`. -/
def significand (double : Double) : Nat :=
  if double.exponentField = 0 then double.fraction else fractionCount + double.fraction

/-- A finite double is, up to its sign, `significand * 2 ^ exponent`. -/
def exponent (double : Double) : Int :=
  if double.exponentField = 0 then leastExponent else double.exponentField - 1075

/-- The double with the given sign and magnitude. -/
def ofMagnitude (negative : Bool) (magnitude : Nat) : Double where
  bits := UInt64.ofNat (magnitude + if negative then signWeight else 0)

/-- The double with the other sign. -/
def negate (double : Double) : Double :=
  ofMagnitude (!double.isNegative) double.magnitudeBits

/-- A quotient rounded to the nearest natural number, a half to the even neighbour. -/
def roundDiv (numerator denominator : Nat) : Nat :=
  let quotient := numerator / denominator
  let rest := numerator % denominator
  if 2 * rest < denominator then quotient
  else if denominator < 2 * rest then quotient + 1
  else quotient + quotient % 2

/-- A fraction over a power of two, as a fraction of naturals. -/
def scale (numerator denominator : Nat) (exponent : Int) : Nat × Nat :=
  match exponent with
  | .ofNat power => (numerator, denominator * Nat.pow 2 power)
  | .negSucc power => (numerator * Nat.pow 2 (power + 1), denominator)

/-- The exponent at which a positive fraction has 53 significant bits, or the least exponent. -/
def scaleExponent (numerator denominator : Nat) : Int :=
  let guess : Int := numerator.log2 - denominator.log2 - 53
  let (scaled, unit) := scale numerator denominator guess
  max (if unit * (2 * fractionCount) ≤ scaled then guess + 1 else guess) leastExponent

/-- The magnitude of the double nearest to a fraction, or that of infinity where the fraction is too
large. A significand that rounding makes one bit longer carries into the exponent. -/
def nearestMagnitude (numerator denominator : Nat) : Nat :=
  if numerator = 0 then 0
  else
    let exponent := scaleExponent numerator denominator
    let (scaled, unit) := scale numerator denominator exponent
    min infinityBits ((exponent - leastExponent).toNat * fractionCount + roundDiv scaled unit)

/-- The double nearest to a fraction. -/
def nearest (negative : Bool) (numerator denominator : Nat) : Double :=
  ofMagnitude negative (nearestMagnitude numerator denominator)

/-- The double that is nearest to a natural number. -/
def ofNat (number : Nat) : Double := nearest false number 1

/-- The double that is nearest to an integer. -/
def ofInt (number : Int) : Double := nearest (number < 0) number.natAbs 1

/-- The magnitude of a finite double as a fraction. -/
def toFraction (double : Double) : Nat × Nat :=
  match double.exponent with
  | .ofNat power => (double.significand * Nat.pow 2 power, 1)
  | .negSucc power => (double.significand, Nat.pow 2 (power + 1))

/-- The product of two finite doubles. -/
def times (first second : Double) : Double :=
  let (numerator, denominator) := first.toFraction
  let (numerator', denominator') := second.toFraction
  nearest (first.isNegative != second.isNegative)
    (numerator * numerator') (denominator * denominator')

/-- The quotient of two finite doubles, of which the second is not zero. -/
def dividedBy (first second : Double) : Double :=
  let (numerator, denominator) := first.toFraction
  let (numerator', denominator') := second.toFraction
  nearest (first.isNegative != second.isNegative)
    (numerator * denominator') (denominator * numerator')

example : (ofNat 1).bits = 0x3FF0000000000000 := by decide +kernel
example : (nearest false 1 10).bits = 0x3FB999999999999A := by decide +kernel
example : (ofNat 9007199254740993).bits = (ofNat 9007199254740992).bits := by decide +kernel
example : (nearest true 1 (Nat.pow 2 1074)).bits = 0x8000000000000001 := by decide +kernel

end Double

end Deferral

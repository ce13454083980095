import Deferral.Number.Double

/-!
# The fewest digits that read back

A decimal reads back as a double when it lies in the interval of numbers that round to it; the ends
of the interval belong to it when the significand is even. Among the decimals that read back there
are some with the fewest digits. The grid of decimals with a given number of digits meets the
interval if and only if one of the double's two neighbours on that grid lies in it, so it is enough
to look at those two, for one digit, two digits and so on. Seventeen digits always suffice. Of two
neighbours that read back the nearer one is taken, and the even one where both are equally near.
-/

namespace Deferral.Double

/-- A decimal `digits * 10 ^ exponent`. -/
structure Decimal where
  digits : Nat
  exponent : Int
  deriving Repr, DecidableEq, Inhabited

/-- A double's value with the interval of numbers that round to it, all over one denominator. -/
structure Rounding where
  low : Nat
  value : Nat
  high : Nat
  denominator : Nat
  /-- The ends round to the double as well. -/
  closed : Bool
  deriving Repr, DecidableEq

/-- The interval of numbers that round to the magnitude of a finite double other than zero. Below a
power of two the doubles lie twice as dense. -/
def rounding (double : Double) : Rounding :=
  let significand := double.significand
  let below := if double.fraction = 0 ∧ 1 < double.exponentField then 1 else 2
  let (factor, denominator) :=
    match double.exponent - 2 with
    | .ofNat power => (Nat.pow 2 power, 1)
    | .negSucc power => (1, Nat.pow 2 (power + 1))
  { low := (4 * significand - below) * factor
    value := 4 * significand * factor
    high := (4 * significand + 2) * factor
    denominator
    closed := significand % 2 = 0 }

namespace Rounding

/-- Where a fraction over the same denominator stands towards the interval. -/
def contains (interval : Rounding) (numerator denominator : Nat) : Bool :=
  let low := interval.low * denominator
  let high := interval.high * denominator
  let point := numerator * interval.denominator
  if interval.closed then low ≤ point && point ≤ high else low < point && point < high

/-- The fraction that a decimal stands for. -/
def fractionOf (decimal : Decimal) : Nat × Nat :=
  match decimal.exponent with
  | .ofNat power => (decimal.digits * Nat.pow 10 power, 1)
  | .negSucc power => (decimal.digits, Nat.pow 10 (power + 1))

/-- The value is at least `10 ^ exponent`. -/
def reaches (interval : Rounding) (exponent : Int) : Bool :=
  let (numerator, denominator) := fractionOf ⟨1, exponent⟩
  numerator * interval.denominator ≤ interval.value * denominator

/-- The exponent of the first decimal digit of the value, from a guess that is off by at most one.
-/
def firstPlace (interval : Rounding) (guess : Int) : Int :=
  if interval.reaches (guess + 1) then guess + 1
  else if interval.reaches guess then guess
  else guess - 1

/-- The value over `10 ^ exponent`, as a fraction. -/
def unitsOf (interval : Rounding) (exponent : Int) : Nat × Nat :=
  match exponent with
  | .ofNat power => (interval.value, interval.denominator * Nat.pow 10 power)
  | .negSucc power => (interval.value * Nat.pow 10 (power + 1), interval.denominator)

/-- The best decimal on the grid of the multiples of `10 ^ exponent`, if one reads back. -/
def onGrid? (interval : Rounding) (exponent : Int) : Option Decimal :=
  let (numerator, denominator) := interval.unitsOf exponent
  let lower : Decimal := ⟨numerator / denominator, exponent⟩
  let upper : Decimal := ⟨numerator / denominator + 1, exponent⟩
  let readsBack (decimal : Decimal) : Bool :=
    let (numerator, denominator) := fractionOf decimal
    interval.contains numerator denominator
  let rest := numerator % denominator
  let nearer :=
    if 2 * rest < denominator then lower
    else if denominator < 2 * rest then upper
    else if lower.digits % 2 = 0 then lower else upper
  if readsBack lower && readsBack upper then some nearer
  else if readsBack lower then some lower
  else if readsBack upper then some upper
  else none

/-- The best decimal on the coarsest of the grids that begin at `exponent` and get finer. -/
def onFinerGrids (interval : Rounding) : Nat → Int → Decimal
  | 0, _ => ⟨0, 0⟩
  | grids + 1, exponent =>
    (interval.onGrid? exponent).getD (interval.onFinerGrids grids (exponent - 1))

end Rounding

/-- The same decimal without zeros at its end, of which at most so many are taken off. -/
def Decimal.trim : Nat → Decimal → Decimal
  | 0, decimal => decimal
  | zeros + 1, decimal =>
    if decimal.digits % 10 = 0 then trim zeros ⟨decimal.digits / 10, decimal.exponent + 1⟩
    else decimal

/-- The decimal with the fewest digits that reads back as the magnitude of a finite double other
than zero. -/
def shortest (double : Double) : Decimal :=
  let interval := double.rounding
  let guess := (double.exponent + double.significand.log2) * 30103 / 100000
  (interval.onFinerGrids 17 (interval.firstPlace guess)).trim 17

example : (nearest false 3 10).shortest = ⟨3, -1⟩ := by decide +kernel
example : (Double.mk 1).shortest = ⟨5, -324⟩ := by decide +kernel
example : (ofNat (Nat.pow 10 23)).shortest = ⟨1, 23⟩ := by decide +kernel
example : (nearest false 1 (Nat.pow 2 44)).shortest = ⟨5684341886080802, -29⟩ := by decide +kernel

end Deferral.Double

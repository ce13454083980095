import Deferral.Proofs.Codec.Texts
import Deferral.Proofs.Json.Doubles

/-!
# Numbers and their JSON form

The text of a finite double identifies the double, and it is read as a finite number of the same
sign. But reading rounds more than once, so what is read need not be the double that was written: it
is only close to it. A double with a short decimal comes back, and so does zero with its sign.
-/

namespace Deferral

namespace Double

variable {double : Double}

theorem signed_eq (negative : Bool) (positive : double.isNegative = false) :
    Json.signed negative double = ofMagnitude negative double.magnitudeBits := by
  cases negative with
  | true =>
      rw [Json.signed, if_pos rfl, negate, positive]
      rfl
  | false =>
      have self_eq := double.ofMagnitude_self
      rw [positive] at self_eq
      exact self_eq.symm

theorem magnitudeBits_signed (negative : Bool) (positive : double.isNegative = false) :
    (Json.signed negative double).magnitudeBits = double.magnitudeBits := by
  rw [signed_eq negative positive, magnitudeBits_ofMagnitude negative double.magnitudeBits_lt]

theorem isNegative_signed (negative : Bool) (positive : double.isNegative = false) :
    (Json.signed negative double).isNegative = negative := by
  rw [signed_eq negative positive, isNegative_ofMagnitude negative double.magnitudeBits_lt]

end Double

namespace Codec

open Double

variable {double scaled : Double}

theorem toText_number (finite : double.isFinite = true) :
    number.toText double = Json.writeDouble double := by
  have encoded : number.encode double = .number (.double double) := by
    simp [number, JsonNumber.ofDouble?, finite]
  rw [toText, encoded]
  rfl

/-- What is read is the decimal that was written, scaled. -/
theorem fromText_toText_number (finite : double.isFinite = true)
    (scaled_eq : ofDecimal? double.written.digits double.written.exponent = some scaled) :
    number.fromText (number.toText double) = .success (Json.signed double.isNegative scaled) := by
  rw [toText_number finite]
  exact number.fromText_of_parse (Json.parse_writeDouble finite scaled_eq)

/-- Every finite number is written as a decimal that identifies it: rounded once, the decimal would
be the number. What is read is the decimal after it has been scaled, which takes several roundings.
It is a finite number of the same sign and not far from the one that was written, and it is that
number where the digits of the decimal make no more than 53 bits and its power of ten is a double.
-/
theorem numbers_read_back (finite : double.isFinite = true) :
    ∃ scaled, ofDecimal? double.written.digits double.written.exponent = some scaled ∧
      number.fromText (number.toText double) = .success (Json.signed double.isNegative scaled) ∧
      (Json.signed double.isNegative scaled).isFinite = true ∧
      (Json.signed double.isNegative scaled).isNegative = double.isNegative ∧
      |(Json.signed double.isNegative scaled).magnitude - double.magnitude| ≤
        double.magnitude / 2 ^ 50 + 2 ^ (-1072 : Int) ∧
      (∀ numerator denominator : Nat, 0 < denominator →
        (numerator / denominator : ℚ) = double.written.value →
        nearest double.isNegative numerator denominator = double) ∧
      (double.written.digits ≤ 2 ^ 53 → -22 ≤ double.written.exponent →
        double.written.exponent ≤ 22 →
        number.fromText (number.toText double) = .success double) := by
  rcases ofDecimal?_written_close finite with ⟨scaled, scaled_eq, scaled_finite, positive, close⟩
  have bits_eq := magnitudeBits_signed double.isNegative positive
  have read := fromText_toText_number finite scaled_eq
  refine ⟨scaled, scaled_eq, read, ?_, isNegative_signed _ positive, ?_, ?_, ?_⟩
  · rw [isFinite_congr bits_eq, scaled_finite]
  · rw [magnitude_congr bits_eq]
    exact close
  · intro numerator denominator denominator_pos value_eq
    rw [nearest, nearestMagnitude_of_written finite denominator_pos value_eq, ofMagnitude_self]
  · intro short ge le
    have exact_eq := ofDecimal?_written_exact finite short ge le
    rw [fromText_toText_number finite exact_eq,
      signed_eq _ (isNegative_ofMagnitude false double.magnitudeBits_lt),
      magnitudeBits_ofMagnitude false double.magnitudeBits_lt, ofMagnitude_self]

/-- The tenth below zero comes back. -/
theorem negative_tenth_comes_back :
    (Double.mk 0xBFB999999999999A).isFinite = true ∧
      number.fromText (number.toText ⟨0xBFB999999999999A⟩) = .success ⟨0xBFB999999999999A⟩ := by
  have finite : (Double.mk 0xBFB999999999999A).isFinite = true := by decide
  rcases numbers_read_back finite with ⟨_, _, _, _, _, _, _, comes_back⟩
  exact ⟨finite, comes_back (by decide +kernel) (by decide +kernel) (by decide +kernel)⟩

/-- The largest odd whole number below `2 ^ 53` is written as `9007199254740991.0`. The digits with
the zero behind the point make more than 53 bits, and the number is read as the even one below it.
-/
theorem largest_odd_number_altered :
    (Double.mk 0x433FFFFFFFFFFFFF).isFinite = true ∧
      number.fromText (number.toText ⟨0x433FFFFFFFFFFFFF⟩) = .success ⟨0x433FFFFFFFFFFFFE⟩ ∧
      number.fromText (number.toText ⟨0x433FFFFFFFFFFFFF⟩) ≠ .success ⟨0x433FFFFFFFFFFFFF⟩ := by
  have finite : (Double.mk 0x433FFFFFFFFFFFFF).isFinite = true := by decide
  have scaled_eq : ofDecimal? (Double.mk 0x433FFFFFFFFFFFFF).written.digits
      (Double.mk 0x433FFFFFFFFFFFFF).written.exponent = some ⟨0x433FFFFFFFFFFFFE⟩ := by
    decide +kernel
  have read := fromText_toText_number finite scaled_eq
  have positive : Json.signed (Double.mk 0x433FFFFFFFFFFFFF).isNegative ⟨0x433FFFFFFFFFFFFE⟩ =
      ⟨0x433FFFFFFFFFFFFE⟩ := by decide
  rw [positive] at read
  refine ⟨finite, read, ?_⟩
  rw [read]
  simp

end Codec

end Deferral

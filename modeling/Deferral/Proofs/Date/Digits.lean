import Deferral.Date.Timestamp
import Mathlib.Data.List.Basic
import Mathlib.Data.List.TakeDrop

/-!
# Reading what was padded

A reader that is followed by another one reads what is left. A number that was padded with zeros to
some width has that many digits, and these are read as the number, whether as a field of a timestamp
or as thousandths of a second.
-/

namespace Deferral.Timestamp

section Sequence

variable {α β : Type} {reader : Reader α} {next : α → Reader β} {text rest : List Char}

theorem pure_apply (value : α) (text : List Char) :
    (pure value : Reader α) text = some (value, text) := rfl

theorem bind_apply (reader : Reader α) (next : α → Reader β) (text : List Char) :
    (reader >>= next) text = (reader text).bind fun (value, rest) => next value rest := rfl

theorem bind_of_some {value : α} (read : reader text = some (value, rest)) :
    (reader >>= next) text = next value rest := by
  rw [bind_apply, read]
  rfl

theorem bind_eq_some_iff {result : β} :
    (reader >>= next) text = some (result, rest) ↔
      ∃ value left, reader text = some (value, left) ∧ next value left = some (result, rest) := by
  simp [bind_apply, Option.bind_eq_some_iff]

end Sequence

theorem oneOf_cons {chars : List Char} {char : Char} (mem : char ∈ chars) (rest : List Char) :
    oneOf chars (char :: rest) = some (char, rest) := by
  have read : next (char :: rest) = some (char, rest) := rfl
  rw [oneOf, bind_of_some read, if_pos mem]
  rfl

/-- Digits are read as the number that they stand for. -/
theorem fixedDigits_append {digits : List Char} (all : ∀ char ∈ digits, char.isDigit = true)
    (value : Nat) (rest : List Char) :
    fixedDigits digits.length value (digits ++ rest) =
      some (Nat.ofDigitChars 10 digits value, rest) := by
  induction digits generalizing value with
  | nil => rfl
  | cons digit digits ih =>
      rcases List.forall_mem_cons.mp all with ⟨isDigit, all⟩
      have read : next (digit :: (digits ++ rest)) = some (digit, digits ++ rest) := rfl
      rw [List.length_cons, List.cons_append, fixedDigits, bind_of_some read, if_pos isDigit,
        ih all, Nat.ofDigitChars_cons]

/-- The digits of a number that was padded. -/
theorem padded_spec {width number : Nat} (positive : 0 < width)
    (small : number < Nat.pow 10 width) :
    (∀ char ∈ (padded width number).toList, char.isDigit = true) ∧
      (padded width number).toList.length = width ∧
      Nat.ofDigitChars 10 (padded width number).toList 0 = number := by
  have chars : (padded width number).toList =
      List.replicate (width - (Nat.toDigits 10 number).length) '0' ++ Nat.toDigits 10 number := by
    simp [padded, ← String.length_toList, Nat.toList_repr]
  have short : (Nat.toDigits 10 number).length ≤ width :=
    (Nat.length_toDigits_le_iff (by decide) positive).mpr small
  rw [chars]
  refine ⟨fun char mem => ?_, by simp [short], ?_⟩
  · rcases List.mem_append.mp mem with zero | digit
    · rw [List.eq_of_mem_replicate zero]
      decide
    · exact Nat.isDigit_of_mem_toDigits (by decide) (by decide) digit
  · simp [Nat.ofDigitChars_append]

variable {width number : Nat}

theorem field_padded {greatest : Nat} (positive : 0 < width) (small : number < Nat.pow 10 width)
    (le : number ≤ greatest) (rest : List Char) :
    field width greatest ((padded width number).toList ++ rest) = some (number, rest) := by
  rcases padded_spec positive small with ⟨all, length_eq, number_eq⟩
  have read := fixedDigits_append all 0 rest
  rw [length_eq, number_eq] at read
  rw [field, bind_of_some read, if_pos le]
  rfl

/-- Three decimals of a second are read as so many milliseconds. -/
theorem decimals_padded {thousandths : Nat} (small : thousandths < 1000) {behind : Char}
    (not_digit : behind.isDigit = false) (rest : List Char) :
    decimals ('.' :: ((padded 3 thousandths).toList ++ behind :: rest)) =
      some (thousandths * 1000000, behind :: rest) := by
  have three_digits : thousandths < Nat.pow 10 3 := small
  rcases padded_spec (by decide) three_digits with ⟨all, length_eq, number_eq⟩
  generalize (padded 3 thousandths).toList = digits at all length_eq number_eq
  have spanned : (digits ++ behind :: rest).span Char.isDigit = (digits, behind :: rest) := by
    rw [List.span_eq_takeWhile_dropWhile, List.takeWhile_append_of_pos all,
      List.dropWhile_append_of_pos all]
    simp [not_digit]
  rcases List.length_eq_three.mp length_eq with ⟨hundreds, tens, units, rfl⟩
  simp only [decimals, spanned]
  simp [Nat.ofDigitChars_cons, nanosecondsOf, second] at number_eq ⊢
  omega

end Deferral.Timestamp

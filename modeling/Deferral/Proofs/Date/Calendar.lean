import Deferral.Date.Calendar
import Mathlib.Data.List.GetD
import Mathlib.Tactic.ByContra

/-!
# Days and dates

Every day has a valid date, and the number of that date is the day. The year is found from an even
distribution of the days over four hundred years, which misses it by at most one, and the month and
the day in it by going through the lengths of the months.
-/

namespace Deferral.Date

variable {lengths : List Nat} {month dayOfYear : Nat}

theorem daysIn_monthLengths (year : Int) :
    (daysIn (monthLengths year) : Int) = daysBeforeYear (year + 1) - daysBeforeYear year := by
  simp only [monthLengths, daysIn, daysBeforeYear, isLeapYear, Bool.and_eq_true, Bool.or_eq_true,
    decide_eq_true_eq]
  split <;> omega

/-- A day falls into the year that is found for it. -/
theorem yearOf_spec (days : Int) :
    daysBeforeYear (yearOf days) ≤ days ∧ days < daysBeforeYear (yearOf days + 1) := by
  have not_before : daysBeforeYear (days * 400 / 146097) ≤ days := by
    unfold daysBeforeYear
    omega
  have not_behind : days < daysBeforeYear (days * 400 / 146097 + 1 + 2) := by
    unfold daysBeforeYear
    omega
  simp only [yearOf]
  split
  · exact ⟨‹_›, by simpa [Int.add_assoc] using not_behind⟩
  · split
    · simpa using ⟨not_before, ‹_›⟩
    · exact ⟨by omega, by omega⟩

/-- The month of a day and the day in it, where the first of the months has the given number. -/
theorem monthAndDay_spec (month : Nat) (inside : dayOfYear < daysIn lengths) :
    ∃ index < lengths.length,
      (monthAndDay lengths month dayOfYear).1 = month + index ∧
      1 ≤ (monthAndDay lengths month dayOfYear).2 ∧
      (monthAndDay lengths month dayOfYear).2 ≤ lengths.getD index 0 ∧
      daysIn (lengths.take index) + ((monthAndDay lengths month dayOfYear).2 - 1) = dayOfYear := by
  induction lengths generalizing month dayOfYear with
  | nil => simp [daysIn] at inside
  | cons length lengths ih =>
      rw [monthAndDay]
      split
      · exact ⟨0, by simp, by simp, by simp, by simpa, by simp [daysIn]⟩
      · have later : dayOfYear - length < daysIn lengths := by
          simp only [daysIn] at inside
          omega
        rcases ih (month + 1) later with ⟨index, lt, month_eq, positive, le, day_eq⟩
        refine ⟨index + 1, by simpa, by omega, positive, by simpa, ?_⟩
        simp only [List.take_succ_cons, daysIn]
        omega

/-- The day counted from the first of January of its year. -/
theorem dayOfYear_lt (days : Int) :
    (days - daysBeforeYear (yearOf days)).toNat < daysIn (monthLengths (yearOf days)) := by
  have total := daysIn_monthLengths (yearOf days)
  have within := yearOf_spec days
  omega

theorem ofDays_isValid (number : Int) : (ofDays number).isValid = true := by
  rcases monthAndDay_spec 1 (dayOfYear_lt (number + epoch)) with
    ⟨index, _, month_eq, positive, le, _⟩
  have not_zero : 1 + index ≠ 0 := by omega
  simp only [isValid, ofDays, monthLength, month_eq, if_neg not_zero, Nat.add_sub_cancel_left,
    Bool.and_eq_true, decide_eq_true_eq]
  exact ⟨positive, le⟩

/-- A day is the number of its date. -/
theorem toDays_ofDays (number : Int) : (ofDays number).toDays = number := by
  rcases monthAndDay_spec 1 (dayOfYear_lt (number + epoch)) with
    ⟨index, _, month_eq, _, _, day_eq⟩
  have within := yearOf_spec (number + epoch)
  simp only [toDays, ofDays, daysBeforeMonth, month_eq, Nat.add_sub_cancel_left]
  omega

theorem monthLength_eq_zero_of_lt (year : Int) {month : Nat} (behind : 12 < month) :
    monthLength year month = 0 := by
  have not_zero : month ≠ 0 := by omega
  rw [monthLength, if_neg not_zero]
  exact List.getD_eq_default _ _ (show 12 ≤ month - 1 by omega)

theorem monthLength_le (year : Int) (month : Nat) : monthLength year month ≤ 31 := by
  have all_le : ∀ length ∈ monthLengths year, length ≤ 31 := by
    simp only [monthLengths, List.forall_mem_cons]
    split <;> simp
  rw [monthLength]
  split
  · omega
  · rcases Nat.lt_or_ge (month - 1) (monthLengths year).length with lt | ge
    · rw [List.getD_eq_getElem _ _ lt]
      exact all_le _ (List.getElem_mem lt)
    · rw [List.getD_eq_default _ _ ge]
      omega

/-- A valid date has one of twelve months, and none of these is longer than 31 days. -/
theorem bounds_of_isValid {date : Date} (valid : date.isValid = true) :
    date.month ≤ 12 ∧ date.day ≤ 31 := by
  simp only [isValid, Bool.and_eq_true, decide_eq_true_eq] at valid
  constructor
  · by_contra behind
    have empty := monthLength_eq_zero_of_lt date.year (Nat.lt_of_not_le behind)
    omega
  · exact Nat.le_trans valid.2 (monthLength_le _ _)

end Deferral.Date

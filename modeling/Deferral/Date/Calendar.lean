/-!
# The calendar

Dates of the Gregorian calendar, extended to all years, and their numbers: days are numbered from
the first of January 1970. Every fourth year is a leap year, except that of the years which end a
century only every fourth is one.
-/

namespace Deferral

/-- A day of the calendar. Months and days count from one. -/
structure Date where
  year : Int
  month : Nat
  day : Nat
  deriving Repr, DecidableEq

namespace Date

/-- The year has a twenty-ninth of February. -/
def isLeapYear (year : Int) : Bool :=
  year % 4 = 0 && (year % 100 ≠ 0 || year % 400 = 0)

/-- The lengths of the twelve months of a year. -/
def monthLengths (year : Int) : List Nat :=
  [31, if isLeapYear year then 29 else 28, 31, 30, 31, 30, 31, 31, 30, 31, 30, 31]

/-- The number of days in a month, and none for a month that does not exist. -/
def monthLength (year : Int) (month : Nat) : Nat :=
  if month = 0 then 0 else (monthLengths year).getD (month - 1) 0

/-- The month exists in the calendar and has such a day. -/
def isValid (date : Date) : Bool :=
  1 ≤ date.day && date.day ≤ monthLength date.year date.month

/-- The number of days from the first of January of the year one to that of another year. -/
def daysBeforeYear (year : Int) : Int :=
  365 * (year - 1) + (year - 1) / 4 - (year - 1) / 100 + (year - 1) / 400

/-- The number of days in months of the given lengths. -/
def daysIn : List Nat → Nat
  | [] => 0
  | length :: lengths => length + daysIn lengths

/-- The number of days in the months of a year before one of them. -/
def daysBeforeMonth (year : Int) (month : Nat) : Nat :=
  daysIn ((monthLengths year).take (month - 1))

/-- The first of January 1970, counted from the first of January of the year one. -/
def epoch : Int := daysBeforeYear 1970

/-- The number of a day, counted from the first of January 1970. -/
def toDays (date : Date) : Int :=
  daysBeforeYear date.year + daysBeforeMonth date.year date.month + (date.day - 1 : Nat) - epoch

/-- The year of a day that is counted from the first of January of the year one. Four hundred years
have 146097 days, so an even distribution of them misses the year by at most one. -/
def yearOf (days : Int) : Int :=
  let guess := days * 400 / 146097 + 1
  if daysBeforeYear (guess + 1) ≤ days then guess + 1
  else if days < daysBeforeYear guess then guess - 1
  else guess

/-- The month, counted from a given one, and the day in it of a day counted from the first of that
month, where the lengths of the months are given. -/
def monthAndDay : (lengths : List Nat) → (month dayOfYear : Nat) → Nat × Nat
  | [], month, dayOfYear => (month, dayOfYear + 1)
  | length :: lengths, month, dayOfYear =>
    if dayOfYear < length then (month, dayOfYear + 1)
    else monthAndDay lengths (month + 1) (dayOfYear - length)

/-- The date of the day with the given number. -/
def ofDays (number : Int) : Date :=
  let days := number + epoch
  let year := yearOf days
  let (month, day) := monthAndDay (monthLengths year) 1 (days - daysBeforeYear year).toNat
  { year, month, day }

example : (⟨1970, 1, 1⟩ : Date).toDays = 0 := by decide
example : (⟨2024, 2, 29⟩ : Date).toDays = 19782 := by decide
example : ofDays 19782 = ⟨2024, 2, 29⟩ := by decide
example : ofDays (-719529) = ⟨-1, 12, 31⟩ := by decide

end Date

end Deferral

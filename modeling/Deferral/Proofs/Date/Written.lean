import Deferral.Proofs.Date.Calendar
import Deferral.Proofs.Date.Digits

/-!
# Timestamps are read back

The moments that can be read are regular: their nanoseconds go beyond a second only in a leap
second. What is written for such a moment is read as the same moment, cut to whole milliseconds, if
its year in universal time has four digits. Other years are written with a sign, which no reader
accepts.
-/

namespace Deferral

namespace Instant

/-- The year of a moment in universal time. -/
def year (instant : Instant) : Int := (Date.ofDays (instant.seconds / 86400)).year

/-- The nanoseconds go beyond a second only in a leap second, at the end of a minute. -/
structure Regular (instant : Instant) : Prop where
  nanoseconds_lt : instant.nanoseconds < 2 * Timestamp.second
  leap : Timestamp.second ≤ instant.nanoseconds → instant.seconds % 60 = 59

/-- The moment without what is below a millisecond. -/
def wholeMilliseconds (instant : Instant) : Instant :=
  { instant with nanoseconds := instant.nanoseconds / 1000000 * 1000000 }

end Instant

namespace Timestamp

/-- The fields of a timestamp in universal time are read one after the other. -/
theorem parse?_of_fields {year month day hour minute given thousandths : Nat}
    (year_le : year ≤ 9999)
    (valid : (⟨year, month, day⟩ : Date).isValid = true) (hour_le : hour ≤ 23)
    (minute_le : minute ≤ 59) (given_le : given ≤ 60) (small : thousandths < 1000) :
    parse? (padded 4 year ++ "-" ++ padded 2 month ++ "-" ++ padded 2 day ++ "T"
      ++ padded 2 hour ++ ":" ++ padded 2 minute ++ ":" ++ padded 2 given
      ++ "." ++ padded 3 thousandths ++ "Z") =
      some {
        seconds := (⟨year, month, day⟩ : Date).toDays * 86400 + hour * 3600 + minute * 60 +
          min given 59
        nanoseconds := thousandths * 1000000 + if given = 60 then second else 0 } := by
  rcases Date.bounds_of_isValid valid with ⟨month_le, day_le⟩
  have year_lt : year < Nat.pow 10 4 := Nat.lt_of_le_of_lt year_le (by decide)
  have month_lt : month < Nat.pow 10 2 := Nat.lt_of_le_of_lt month_le (by decide)
  have day_lt : day < Nat.pow 10 2 := Nat.lt_of_le_of_lt day_le (by decide)
  have hour_lt : hour < Nat.pow 10 2 := Nat.lt_of_le_of_lt hour_le (by decide)
  have minute_lt : minute < Nat.pow 10 2 := Nat.lt_of_le_of_lt minute_le (by decide)
  have given_lt : given < Nat.pow 10 2 := Nat.lt_of_le_of_lt given_le (by decide)
  have universal : offset ['Z'] = some (0, []) := rfl
  have dash : "-".toList = ['-'] := rfl
  have letter : "T".toList = ['T'] := rfl
  have colon : ":".toList = [':'] := rfl
  have point : ".".toList = ['.'] := rfl
  have zulu : "Z".toList = ['Z'] := rfl
  unfold parse? instant
  simp only [String.toList_append, dash, letter, colon, point, zulu, List.append_assoc,
    List.cons_append, List.nil_append]
  rw [bind_of_some (field_padded (by decide) year_lt year_le _)]
  rw [bind_of_some (oneOf_cons (by decide) _)]
  rw [bind_of_some (field_padded (by decide) month_lt month_le _)]
  rw [bind_of_some (oneOf_cons (by decide) _)]
  rw [bind_of_some (field_padded (by decide) day_lt day_le _)]
  simp only [valid, not_true_eq_false, if_false]
  rw [bind_of_some (oneOf_cons (by decide) _)]
  rw [bind_of_some (field_padded (by decide) hour_lt hour_le _)]
  rw [bind_of_some (oneOf_cons (by decide) _)]
  rw [bind_of_some (field_padded (by decide) minute_lt minute_le _)]
  rw [bind_of_some (oneOf_cons (by decide) _)]
  rw [bind_of_some (field_padded (by decide) given_lt given_le _)]
  rw [bind_of_some (decimals_padded small (by decide) _)]
  rw [bind_of_some universal]
  simp [pure_apply]

/-- What is written for a moment of one of the years that have four digits is read as the moment,
but for what is below a millisecond. -/
theorem parse?_write {moment : Instant} (regular : moment.Regular) (early : 0 ≤ moment.year)
    (late : moment.year ≤ 9999) : parse? (write moment) = some moment.wholeMilliseconds := by
  have valid := Date.ofDays_isValid (moment.seconds / 86400)
  have days := Date.toDays_ofDays (moment.seconds / 86400)
  rcases regular with ⟨nanoseconds_lt, leap⟩
  rcases moment with ⟨seconds, nanoseconds⟩
  simp only [Instant.year, write, second] at *
  generalize Date.ofDays (seconds / 86400) = date at *
  rcases date with ⟨year, month, day⟩
  simp only at early late
  lift year to Nat using early
  generalize time_eq : (seconds % 86400).toNat = time
  have four_digits : writeYear year = padded 4 year := by simp [writeYear, late]
  rw [four_digits, parse?_of_fields (by omega) valid (by omega) (by omega) (by omega) (by omega),
    days]
  simp only [Instant.wholeMilliseconds, second, Option.some.injEq, Instant.mk.injEq]
  constructor
  · omega
  · split <;> omega

section Regular

variable {text rest : List Char}

theorem nanosecondsOf_le {digits : List Nat} (all : ∀ digit ∈ digits, digit ≤ 9) (unit : Nat) :
    nanosecondsOf unit digits ≤ 10 * unit - 1 := by
  induction digits generalizing unit with
  | nil => simp [nanosecondsOf]
  | cons digit digits ih =>
      rcases List.forall_mem_cons.mp all with ⟨le, all⟩
      have first := Nat.mul_le_mul_right unit le
      have rest := ih all (unit / 10)
      rw [nanosecondsOf]
      omega

theorem digit_le {char : Char} (isDigit : char.isDigit = true) : char.toNat - '0'.toNat ≤ 9 := by
  have le := (Char.isDigit_iff_toNat.mp isDigit).2
  have zero : '0'.toNat = 48 := rfl
  have nine : '9'.toNat = 57 := rfl
  omega

theorem decimals_lt {nanoseconds : Nat} (read : decimals text = some (nanoseconds, rest)) :
    nanoseconds < second := by
  unfold decimals at read
  split at read
  · rename_i digits
    rw [List.span_eq_takeWhile_dropWhile] at read
    simp only at read
    split at read
    · cases read
    · cases read
      have all_le : ∀ digit ∈ (digits.takeWhile Char.isDigit).map fun char =>
          char.toNat - '0'.toNat, digit ≤ 9 := by
        simp only [List.forall_mem_map]
        exact fun char mem => digit_le (List.all_eq_true.mp List.all_takeWhile char mem)
      have le := nanosecondsOf_le all_le (second / 10)
      have positive : 0 < second := by decide
      have tenth : 10 * (second / 10) = second := by decide
      omega
  · cases read
    decide

/-- Offsets are made of whole minutes. -/
theorem offset_mod {east : Int} (read : offset text = some (east, rest)) : east % 60 = 0 := by
  unfold offset at read
  rcases bind_eq_some_iff.mp read with ⟨mark, left, _, read⟩
  split at read
  · cases read
    rfl
  · simp only [bind_eq_some_iff] at read
    rcases read with ⟨hours, _, _, _, _, _, minutes, _, _, read⟩
    cases read
    split <;> omega

theorem regular_of_instant {moment : Instant} (read : instant text = some (moment, rest)) :
    moment.Regular := by
  unfold instant at read
  rcases bind_eq_some_iff.mp read with ⟨year, _, _, read⟩
  rcases bind_eq_some_iff.mp read with ⟨_, _, _, read⟩
  rcases bind_eq_some_iff.mp read with ⟨month, _, _, read⟩
  rcases bind_eq_some_iff.mp read with ⟨_, _, _, read⟩
  rcases bind_eq_some_iff.mp read with ⟨day, _, _, read⟩
  split at read
  · rcases bind_eq_some_iff.mp read with ⟨_, _, failed, _⟩
    cases failed
  · simp only [bind_eq_some_iff] at read
    rcases read with ⟨_, _, _, hour, _, _, _, _, _, minute, _, _, _, _, _, given, _, _, nanoseconds,
      _, decimals_read, east, _, offset_read, read⟩
    cases read
    have below := decimals_lt decimals_read
    have whole := offset_mod offset_read
    constructor
    · dsimp only
      split <;> omega
    · dsimp only
      split <;> omega

theorem regular_of_parse? {text : String} {moment : Instant}
    (parsed : parse? text = some moment) : moment.Regular := by
  unfold parse? at parsed
  split at parsed
  · rename_i read
    cases parsed
    exact regular_of_instant read
  · cases parsed

end Regular

/-- What is below a millisecond is not written. -/
theorem write_wholeMilliseconds (moment : Instant) :
    write moment.wholeMilliseconds = write moment := by
  have seconds_eq : moment.nanoseconds / 1000000 * 1000000 / second =
      moment.nanoseconds / second := by
    simp only [second]
    omega
  have thousandths_eq : moment.nanoseconds / 1000000 * 1000000 % second / 1000000 =
      moment.nanoseconds % second / 1000000 := by
    simp only [second]
    omega
  simp only [write, Instant.wholeMilliseconds, seconds_eq, thousandths_eq]

end Timestamp

end Deferral

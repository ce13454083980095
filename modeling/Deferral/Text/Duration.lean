/-!
# Durations as text

A duration is written in the largest unit that gives a whole part, with as many decimals as it has
and no trailing zeros. Durations here are whole milliseconds, so seconds have at most three
decimals, and only the empty duration falls through to the smallest unit.
-/

namespace Deferral.Text

/-- A number of thousandths as decimals, with no trailing zeros and no point if there are none. -/
def thousandths (count : Nat) : String :=
  if count = 0 then ""
  else if count % 100 = 0 then s!".{count / 100}"
  else if count % 10 = 0 then s!".{count / 100}{count / 10 % 10}"
  else s!".{count / 100}{count / 10 % 10}{count % 10}"

/-- A number of milliseconds in the largest unit that is not greater. -/
def duration (milliseconds : Nat) : String :=
  if milliseconds = 0 then "0ns"
  else if milliseconds < 1000 then s!"{milliseconds}ms"
  else s!"{milliseconds / 1000}{thousandths (milliseconds % 1000)}s"

example : (duration 0, duration 10, duration 1500) = ("0ns", "10ms", "1.5s") := by decide
example : (duration 60000, duration 90061, duration 1050) = ("60s", "90.061s", "1.05s") := by decide

end Deferral.Text

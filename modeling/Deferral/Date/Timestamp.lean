import Deferral.Date.Calendar

/-!
# Timestamps

A timestamp is a date, a time of day and the distance of the local time from universal time, as in
`2024-02-29T12:00:00.5+02:00`. Reading accepts any number of decimals of a second and forgets those
beyond the ninth; it accepts a leap second at the end of any minute. Writing gives universal time
with three decimals. The digits are those of ASCII.
-/

namespace Deferral

/-- A moment: whole seconds since the beginning of 1970, and nanoseconds beyond them. In a leap
second the nanoseconds go on counting past the second before it, from 1000000000. -/
structure Instant where
  seconds : Int
  nanoseconds : Nat
  deriving Repr, DecidableEq

namespace Timestamp

/-- The nanoseconds of a second. -/
def second : Nat := 1000000000

/-- Reading something off the front of a text. -/
abbrev Reader (α : Type) := StateT (List Char) Option α

/-- Read any character. -/
def next : Reader Char
  | [] => none
  | char :: rest => some (char, rest)

/-- The next character, which must be one of the given ones. -/
def oneOf (chars : List Char) : Reader Char := do
  let char ← next
  if char ∈ chars then return char else failure

/-- A number of exactly so many digits, behind digits with a given value. -/
def fixedDigits : (count value : Nat) → Reader Nat
  | 0, value => return value
  | count + 1, value => do
    let char ← next
    if char.isDigit then fixedDigits count (10 * value + (char.toNat - '0'.toNat)) else failure

/-- A number of exactly so many digits that is not too large. -/
def field (count greatest : Nat) : Reader Nat := do
  let value ← fixedDigits count 0
  if value ≤ greatest then return value else failure

/-- The nanoseconds that some decimals of a second stand for. -/
def nanosecondsOf : (unit : Nat) → List Nat → Nat
  | _, [] => 0
  | unit, digit :: digits => digit * unit + nanosecondsOf (unit / 10) digits

/-- The decimals of a second behind a point, if there is one. -/
def decimals : Reader Nat := fun text =>
  match text with
  | '.' :: rest =>
    let (digits, rest) := rest.span Char.isDigit
    if digits.isEmpty then none
    else some (nanosecondsOf (second / 10) (digits.map fun digit => digit.toNat - '0'.toNat), rest)
  | rest => some (0, rest)

/-- The distance from universal time, in seconds to the east. -/
def offset : Reader Int := do
  let mark ← oneOf ['Z', 'z', '+', '-', '\u2212']
  if mark = 'Z' ∨ mark = 'z' then return 0
  else
    let hours ← field 2 23
    let _ ← oneOf [':']
    let minutes ← field 2 59
    let distance : Int := hours * 3600 + minutes * 60
    return if mark = '+' then distance else -distance

/-- A timestamp at the front of a text. -/
def instant : Reader Instant := do
  let year ← field 4 9999
  let _ ← oneOf ['-']
  let month ← field 2 12
  let _ ← oneOf ['-']
  let day ← field 2 31
  let date : Date := ⟨year, month, day⟩
  if ¬date.isValid then failure
  let _ ← oneOf ['T', 't', ' ']
  let hour ← field 2 23
  let _ ← oneOf [':']
  let minute ← field 2 59
  let _ ← oneOf [':']
  let given ← field 2 60
  let nanoseconds ← decimals
  let east ← offset
  let leap := given = 60
  return {
    seconds := date.toDays * 86400 + hour * 3600 + minute * 60 + min given 59 - east
    nanoseconds := nanoseconds + if leap then second else 0 }

/-- The instant that a whole text stands for, if it is in the form of RFC 3339. -/
def parse? (text : String) : Option Instant :=
  match instant text.toList with
  | some (instant, []) => some instant
  | _ => none

/-- A number in decimal, with zeros in front up to a width. -/
def padded (width number : Nat) : String :=
  let digits := toString number
  String.ofList (List.replicate (width - digits.length) '0') ++ digits

/-- A year. One that has more than four digits or none before it has a sign. -/
def writeYear (year : Int) : String :=
  if 0 ≤ year ∧ year ≤ 9999 then padded 4 year.toNat
  else (if year < 0 then "-" else "+") ++ padded 4 year.natAbs

/-- A moment in universal time, with three decimals of a second. -/
def write (instant : Instant) : String :=
  let date := Date.ofDays (instant.seconds / 86400)
  let time := (instant.seconds % 86400).toNat
  let shown := time % 60 + instant.nanoseconds / second
  let thousandths := instant.nanoseconds % second / 1000000
  writeYear date.year ++ "-" ++ padded 2 date.month ++ "-" ++ padded 2 date.day ++ "T"
    ++ padded 2 (time / 3600) ++ ":" ++ padded 2 (time / 60 % 60) ++ ":" ++ padded 2 shown
    ++ "." ++ padded 3 thousandths ++ "Z"

example : parse? "2024-02-29T12:00:00.5+02:00" = some ⟨1709200800, 500000000⟩ := by decide +kernel
example : write ⟨1709200800, 500000000⟩ = "2024-02-29T10:00:00.500Z" := by decide +kernel
example : parse? "1990-12-31T23:59:60Z" = some ⟨662687999, 1000000000⟩ := by decide +kernel
example : write ⟨662687999, 1000000000⟩ = "1990-12-31T23:59:60.000Z" := by decide +kernel

end Timestamp

end Deferral

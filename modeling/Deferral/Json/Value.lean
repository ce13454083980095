import Deferral.Number.Double

/-!
# JSON values

A number keeps the form it was written in: a natural number or a negative integer of at most 64 bits
is exact, and everything else is a double. The members of an object are kept in the order of their
keys, each key once.
-/

namespace Deferral

/-- A number as it was read: an integer of 64 bits with or without a sign, or a double. -/
inductive JsonNumber where
  | natural (number : UInt64)
  | negative (number : Int64)
  | double (number : Double)
  deriving Repr, DecidableEq

namespace JsonNumber

/-- An integer in the form in which it is exact. -/
def ofInt64 (number : Int64) : JsonNumber :=
  if number < 0 then .negative number else .natural number.toUInt64

/-- A double as a number, unless it is infinite or a NaN. -/
def ofDouble? (double : Double) : Option JsonNumber :=
  if double.isFinite then some (.double double) else none

/-- The double that is nearest to a number. -/
def toDouble : JsonNumber → Double
  | .natural number => .ofNat number.toNat
  | .negative number => .ofInt number.toInt
  | .double number => number

/-- The integer, if the number is an exact one that fits into 64 bits with a sign. A natural number
that does not fit would come out below zero. -/
def toInt64? : JsonNumber → Option Int64
  | .natural number => if 0 ≤ number.toInt64 then some number.toInt64 else none
  | .negative number => some number
  | .double _ => none

end JsonNumber

/-- A JSON value. The members of an object are kept in the order of their keys. -/
inductive Json where
  | null
  | bool (flag : Bool)
  | number (number : JsonNumber)
  | string (text : String)
  | array (items : List Json)
  | object (members : List (String × Json))
  deriving Repr, Inhabited

namespace Json

/-- Put a member into a list that is in the order of its keys, in place of one with the same key. -/
def insertMember (key : String) (value : Json) : List (String × Json) → List (String × Json)
  | [] => [(key, value)]
  | (other, held) :: members =>
    if key = other then (key, value) :: members
    else if key < other then (key, value) :: (other, held) :: members
    else (other, held) :: insertMember key value members

/-- The object with the given members; the last one counts among those with the same key. -/
def ofMembers (members : List (String × Json)) : Json :=
  .object (members.foldl (fun sofar (key, value) => insertMember key value sofar) [])

/-- The member of an object with a key. -/
def member? (key : String) : Json → Option Json
  | .object members => members.lookup key
  | _ => none

end Json

end Deferral

import Deferral.Json.Parser

/-!
# Skipping JSON

A value that nobody asks for is read past. Only its shape is looked at: numbers may be of any size
and lists and objects may be nested to any depth, because the brackets that are open are kept in a
list.
-/

namespace Deferral.Json

/-- What is open while a value is read past. -/
inductive Bracket where
  | list
  | object
  deriving Repr, DecidableEq

namespace Bracket

/-- The character that closes a bracket. -/
def closing : Bracket → Char
  | .list => ']'
  | .object => '\x7d'

/-- What is wrong with a text that ends inside of a bracket. -/
def endInside : Bracket → Flaw
  | .list => .endInList
  | .object => .endInObject

/-- Neither a comma nor the closing bracket follows an item. -/
def commaExpected : Bracket → Flaw
  | .list => .listCommaExpected
  | .object => .objectCommaExpected

end Bracket

namespace Scan

/-- Read past a text whose opening quote has been read. -/
def skipString : Scan Unit := fun cursor => do
  let cursor ← skipText .plain cursor.offset cursor.rest
  return ((), cursor)

/-- Read past what stands in front of an item: nothing in a list, a key in an object. -/
def skipLabel : Bracket → Scan Unit
  | .list => return ()
  | .object => do
    match ← skipBlanks with
    | some '"' =>
      advance
      skipString
      colon
    | some _ => failNext .keyExpected
    | none => failNext .endInObject

mutual

/-- Read past a value inside some brackets, the innermost one first, and past the rest of these. -/
def skipWithin : (steps : Nat) → List Bracket → Scan Unit
  | 0, _ => failNext .tooDeep
  | steps + 1, brackets => do
    match ← skipBlanks with
    | none => failNext .endInValue
    | some 'n' =>
      advance
      letters ['u', 'l', 'l']
      skipBehind steps true brackets
    | some 't' =>
      advance
      letters ['r', 'u', 'e']
      skipBehind steps true brackets
    | some 'f' =>
      advance
      letters ['a', 'l', 's', 'e']
      skipBehind steps true brackets
    | some '"' =>
      advance
      skipString
      skipBehind steps true brackets
    | some '[' =>
      advance
      skipBehind steps false (.list :: brackets)
    | some '\x7b' =>
      advance
      skipBehind steps false (.object :: brackets)
    | some char =>
      if char = '-' ∨ char.isDigit then
        skipNumeral
        skipBehind steps true brackets
      else failNext .valueExpected

/-- Read past what follows an item, where a comma may follow, or an opening bracket. -/
def skipBehind : (steps : Nat) → (item : Bool) → List Bracket → Scan Unit
  | 0, _, _ => failNext .tooDeep
  | _ + 1, _, [] => return ()
  | steps + 1, item, bracket :: brackets => do
    match ← skipBlanks with
    | none => failNext bracket.endInside
    | some char =>
      if char = ',' ∧ item then
        advance
        skipLabel bracket
        skipWithin steps (bracket :: brackets)
      else if char = bracket.closing then
        advance
        skipBehind steps true brackets
      else if item then failNext bracket.commaExpected
      else
        skipLabel bracket
        skipWithin steps (bracket :: brackets)

end

/-- Pass over a value, in at most so many steps. -/
def skipValue (steps : Nat) : Scan Unit := skipWithin steps []

end Scan

end Deferral.Json

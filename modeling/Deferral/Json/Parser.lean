import Deferral.Json.Numeral
import Deferral.Json.Text

/-!
# Reading JSON

A value is read by looking at its first character. The members of a list or an object are read one
after the other; of what is wrong in them the first is reported. There is a limit to how deep lists
and objects may be nested.

Every step reads at least one character, so the number of characters bounds the number of steps. The
readers count their steps down from there, which makes them total; the bound is never met.
-/

namespace Deferral.Json

namespace Scan

/-- Go on behind the comma that follows an item; `false` at the closing bracket, which is left
unread. -/
def listGoesOn (first : Bool) : Scan Bool := do
  match ← skipBlanks with
  | none => failNext .endInList
  | some ']' => return false
  | some char =>
    if first then return true
    else if char = ',' then do
      advance
      match ← skipBlanks with
      | none => failNext .endInValue
      | some ']' => failNext .trailingComma
      | some _ => return true
    else failNext .listCommaExpected

/-- Go on behind the comma that follows a member, in front of the quote of a key; `false` at the
closing brace, which is left unread. -/
def objectGoesOn (first : Bool) : Scan Bool := do
  match ← skipBlanks with
  | none => failNext .endInObject
  | some '\x7d' => return false
  | some char =>
    if first then
      if char = '"' then return true else failNext .keyExpected
    else if char = ',' then do
      advance
      match ← skipBlanks with
      | none => failNext .endInValue
      | some '"' => return true
      | some '\x7d' => failNext .trailingComma
      | some _ => failNext .keyExpected
    else failNext .objectCommaExpected

/-- Read the colon behind a key. -/
def colon : Scan Unit := do
  match ← skipBlanks with
  | none => failNext .endInObject
  | some ':' => advance
  | some _ => failNext .colonExpected

/-- Read a key whose opening quote is next, and the colon behind it. -/
def key : Scan String := do
  advance
  let name ← text
  colon
  return name

mutual

/-- Read a value in which so many more brackets may be open at once. -/
def value : (steps depth : Nat) → Scan Json
  | 0, _ => failNext .tooDeep
  | steps + 1, depth => do
    match ← skipBlanks with
    | none => failNext .endInValue
    | some 'n' =>
      advance
      letters ['u', 'l', 'l']
      return .null
    | some 't' =>
      advance
      letters ['r', 'u', 'e']
      return .bool true
    | some 'f' =>
      advance
      letters ['a', 'l', 's', 'e']
      return .bool false
    | some '"' =>
      advance
      return .string (← text)
    | some '[' =>
      match depth with
      | 0 => failNext .tooDeep
      | depth + 1 =>
        advance
        items steps depth []
    | some '\x7b' =>
      match depth with
      | 0 => failNext .tooDeep
      | depth + 1 =>
        advance
        members steps depth []
    | some char =>
      if char = '-' ∨ char.isDigit then return .number (← numeral)
      else failNext .valueExpected

/-- Read the items of a list behind some, the last one first. -/
def items : (steps depth : Nat) → List Json → Scan Json
  | 0, _, _ => failNext .tooDeep
  | steps + 1, depth, read => do
    if ← listGoesOn read.isEmpty then
      let item ← value steps depth
      items steps depth (item :: read)
    else
      advance
      return .array read.reverse

/-- Read the members of an object behind some, the last one first. -/
def members : (steps depth : Nat) → List (String × Json) → Scan Json
  | 0, _, _ => failNext .tooDeep
  | steps + 1, depth, read => do
    if ← objectGoesOn read.isEmpty then
      let name ← key
      let held ← value steps depth
      members steps depth ((name, held) :: read)
    else
      advance
      return .ofMembers read.reverse

end

/-- Nothing but blanks follows. -/
def finish : Scan Unit := do
  if (← skipBlanks).isSome then failNext .trailingCharacters

/-- Read a text as a whole, with a bound for the number of steps. -/
def whole {α : Type} (read : (steps : Nat) → Scan α) (text : String) : Except SyntaxError α := do
  let scan : Scan α := do
    let result ← read (2 * text.length + 2)
    finish
    return result
  let (result, _) ← scan (.start text)
  return result

end Scan

/-- How many brackets may be open at once. -/
def depthLimit : Nat := 127

/-- The value that a text stands for. -/
def parse (text : String) : Except SyntaxError Json :=
  Scan.whole (Scan.value · depthLimit) text

end Deferral.Json

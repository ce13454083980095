import Deferral.Json.Printer
import Deferral.Json.Skip
import Deferral.Outcome.Basic

/-!
# Stored data

Data of a known type is stored as JSON text. It is read back straight from the text, so of what is
wrong the first thing is reported, whether it is the form of the text or the type of what is found.
-/

namespace Deferral

namespace Stored

/-- What was found where something of another type was expected. -/
inductive Found where
  | null
  | boolean (flag : Bool)
  | integer (value : Int)
  | double (value : Double)
  | string (text : String)
  | list
  | object
  | bareVariant
  deriving Repr, DecidableEq

/-- A text in backquotes. -/
def marked (text : String) : String := "\x60" ++ text ++ "\x60"

/-- The words for what was found in place of something else. -/
def Found.message : Found → String
  | .null => "null"
  | .boolean flag => "boolean " ++ marked (if flag then "true" else "false")
  | .integer value => "integer " ++ marked (toString value)
  | .double value => "floating point " ++ marked (Json.writeDouble value)
  | .string text => "string " ++ Text.quoted text
  | .list => "sequence"
  | .object => "map"
  | .bareVariant => "unit variant"

/-- What is found when a number is read. -/
def Found.ofNumber : JsonNumber → Found
  | .natural value => .integer value.toNat
  | .negative value => .integer value.toInt
  | .double value => .double value

/-- Why a text does not stand for data of a type. -/
inductive ReadError where
  | malformed (error : Json.SyntaxError)
  | wrongType (found : Found) (expected : String)
  | outOfRange (value : Int) (expected : String)
  | unknownVariant (name : String) (known : List String)
  | duplicateField (name : String)
  | missingField (name : String)
  | tooShort (length : Nat) (expected : String)
  deriving Repr, DecidableEq

/-- The wording of an error, without the place. -/
def ReadError.message : ReadError → String
  | .malformed error => error.flaw.message
  | .wrongType found expected => s!"invalid type: {found.message}, expected {expected}"
  | .outOfRange value expected =>
      s!"invalid value: integer {marked (toString value)}, expected {expected}"
  | .unknownVariant name known =>
      s!"unknown variant {marked name}, expected " ++ " or ".intercalate (known.map marked)
  | .duplicateField name => s!"duplicate field {marked name}"
  | .missingField name => s!"missing field {marked name}"
  | .tooShort length expected => s!"invalid length {length}, expected {expected}"

/-- A reader of data, which moves a cursor or stops at an error. -/
abbrev Read (α : Type) := StateT Json.Cursor (Except ReadError) α

instance : MonadLift Json.Scan Read where
  monadLift scan := fun cursor => (scan cursor).mapError .malformed

open Json (Scan)

namespace Read

variable {α : Type}

/-- Fail because of what is found at the cursor, which begins with the given character. -/
def unexpected (char : Char) (expected : String) : Read α := do
  match char with
  | 'n' =>
    Scan.advance
    Scan.letters ['u', 'l', 'l']
    throw (.wrongType .null expected)
  | 't' =>
    Scan.advance
    Scan.letters ['r', 'u', 'e']
    throw (.wrongType (.boolean true) expected)
  | 'f' =>
    Scan.advance
    Scan.letters ['a', 'l', 's', 'e']
    throw (.wrongType (.boolean false) expected)
  | '"' =>
    Scan.advance
    throw (.wrongType (.string (← Scan.text)) expected)
  | '[' => throw (.wrongType .list expected)
  | '\x7b' => throw (.wrongType .object expected)
  | char =>
    if char = '-' ∨ char.isDigit then
      throw (.wrongType (.ofNumber (← Scan.numeral)) expected)
    else Scan.failNext .valueExpected

/-- The first character of a value, behind the blanks in front of it. It is not read yet. -/
def begin : Read Char := do
  match ← Scan.skipBlanks with
  | some char => return char
  | none => Scan.failNext .endInValue

/-- A number that some function accepts. -/
def integer (expected : String) (accept : Int → Option α) : Read α := do
  let char ← begin
  if char = '-' ∨ char.isDigit then
    let value ← Scan.numeral
    match Found.ofNumber value with
    | .integer value =>
      match accept value with
      | some result => return result
      | none => throw (.outOfRange value expected)
    | found => throw (.wrongType found expected)
  else unexpected char expected

/-- Read an integer of 64 bits without a sign. -/
def unsigned (expected : String) : Read UInt64 :=
  integer expected fun value =>
    if 0 ≤ value ∧ value.toNat < UInt64.size then some (.ofNat value.toNat) else none

/-- Read an integer of 64 bits with a sign. -/
def signed : Read Int64 :=
  integer "i64" fun value =>
    if Int64.minValue.toInt ≤ value ∧ value ≤ Int64.maxValue.toInt then some (.ofInt value)
    else none

/-- Read a text. -/
def string : Read String := do
  match ← begin with
  | '"' =>
    Scan.advance
    Scan.text
  | char => unexpected char "a string"

/-- Read a truth value. -/
def boolean : Read Bool := do
  match ← begin with
  | 't' =>
    Scan.advance
    Scan.letters ['r', 'u', 'e']
    return true
  | 'f' =>
    Scan.advance
    Scan.letters ['a', 'l', 's', 'e']
    return false
  | char => unexpected char "a boolean"

/-- Read `null`. -/
def unit : Read Unit := do
  match ← begin with
  | 'n' =>
    Scan.advance
    Scan.letters ['u', 'l', 'l']
  | char => unexpected char "unit"

/-- Nothing, which is null, or something. -/
def option (something : Read α) : Read (Option α) := do
  match ← Scan.skipBlanks with
  | some 'n' =>
    Scan.advance
    Scan.letters ['u', 'l', 'l']
    return none
  | _ => return some (← something)

/-- The items of a list behind some, the last one first. -/
def items (item : Read α) : (steps : Nat) → List α → Read (List α)
  | 0, _ => Scan.failNext .tooDeep
  | steps + 1, read => do
    if ← Scan.listGoesOn read.isEmpty then
      items item steps ((← item) :: read)
    else
      Scan.advance
      return read.reverse

/-- Read a list, in at most so many steps. -/
def list (item : Read α) (steps : Nat) : Read (List α) := do
  match ← begin with
  | '[' =>
    Scan.advance
    items item steps []
  | char => unexpected char "a sequence"

/-- Read the end of a list whose items have all been read. -/
def closeList : Scan Unit := do
  match ← Scan.skipBlanks with
  | none => Scan.failNext .endInList
  | some ']' => Scan.advance
  | some ',' =>
    Scan.advance
    if (← Scan.skipBlanks) = some ']' then Scan.failNext .trailingComma
    else Scan.failNext .trailingCharacters
  | some _ => Scan.failNext .trailingCharacters

/-- The name of a variant, in an object that has just been opened. -/
def variantName : Scan String := do
  match ← Scan.skipBlanks with
  | none => Scan.failNext .endInObject
  | some '"' =>
    Scan.advance
    Scan.text
  | some '\x7d' => Scan.failNext .valueExpected
  | some _ => Scan.failNext .keyExpected

/-- One of several variants, each with a name and a value: an object with the one as its key and the
other as its member. -/
def variant (variants : List (String × Read α)) : Read α := do
  match ← begin with
  | '\x7b' =>
    Scan.advance
    let name ← variantName
    match variants.lookup name with
    | none => throw (.unknownVariant name (variants.map (·.1)))
    | some read =>
      Scan.colon
      let value ← read
      match ← Scan.skipBlanks with
      | some '\x7d' =>
        Scan.advance
        return value
      | some _ => Scan.failHere .valueExpected
      | none => Scan.failHere .endInObject
  | '"' =>
    Scan.advance
    let name ← Scan.text
    match variants.lookup name with
    | none => throw (.unknownVariant name (variants.map (·.1)))
    | some _ => throw (.wrongType .bareVariant "newtype variant")
  | _ => Scan.failNext .valueExpected

end Read

end Stored

/-- Data that is stored as text. -/
class Stored (α : Type) where
  /-- Read data, with a bound for the number of steps. -/
  read : (steps : Nat) → Stored.Read α
  /-- The form in which data is stored. -/
  toJson : α → Json

namespace Stored

variable {ε α : Type}

/-- Read a whole text as data. Each character takes at most two steps, so the bound is never met. -/
def ofText [Stored α] (text : String) : Except ReadError α := do
  let scan : Read α := do
    let value ← Stored.read (2 * text.length + 2)
    Json.Scan.finish
    return value
  let (value, _) ← scan (.start text)
  return value

/-- The text in which data is stored. -/
def toText [Stored α] (value : α) : String := (toJson value).write

instance : Stored String where
  read _ := Read.string
  toJson := .string

instance : Stored Int64 where
  read _ := Read.signed
  toJson value := .number (.ofInt64 value)

instance : Stored Bool where
  read _ := Read.boolean
  toJson := .bool

instance : Stored Unit where
  read _ := Read.unit
  toJson _ := .null

instance [Stored α] : Stored (Option α) where
  read steps := Read.option (read steps)
  toJson
    | none => .null
    | some value => toJson value

instance [Stored α] : Stored (List α) where
  read steps := Read.list (read steps) steps
  toJson items := .array (items.map toJson)

instance [Stored ε] [Stored α] : Stored (Outcome ε α) where
  read steps := Read.variant [
    ("Failure", return .failure (← read steps)),
    ("Success", return .success (← read steps))]
  toJson
    | .failure reason => .object [("Failure", toJson reason)]
    | .success value => .object [("Success", toJson value)]

end Stored

end Deferral

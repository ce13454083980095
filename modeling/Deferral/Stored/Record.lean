import Deferral.Stored.Basic

/-!
# Stored records

A record is stored as an object with a member for each field, or as a list of its fields in order.
The members may come in any order, members with other keys are skipped, and no field may come twice.
What becomes of a field that does not come is for the record to say.
-/

namespace Deferral.Stored

open Json (Scan)

/-- A field of a record whose data is gathered in `γ`. -/
structure Field (γ : Type) where
  name : String
  isSet : γ → Bool
  read : Read (γ → γ)

/-- How a record is stored. -/
structure Record (γ α : Type) where
  name : String
  fields : List (Field γ)
  start : γ
  /-- The record of the fields that have come, or the name of one that is missing. -/
  complete : γ → Except String α

namespace Record

variable {γ α : Type}

/-- Read the members of an object. -/
def readMembers (record : Record γ α) : (steps : Nat) → (first : Bool) → γ → Read γ
  | 0, _, _ => Scan.failNext .tooDeep
  | steps + 1, first, sofar => do
    if ← Scan.objectGoesOn first then
      Scan.advance
      let name ← Scan.text
      match record.fields.find? (·.name = name) with
      | some field =>
        if field.isSet sofar then throw (.duplicateField name)
        Scan.colon
        let set ← field.read
        readMembers record steps false (set sofar)
      | none =>
        Scan.colon
        Scan.skipValue steps
        readMembers record steps false sofar
    else
      Scan.advance
      return sofar

/-- Read as many fields as come, in order. -/
def readItems : List (Field γ) → (first : Bool) → γ → Read γ
  | [], _, sofar => return sofar
  | field :: fields, first, sofar => do
    if ← Scan.listGoesOn first then
      let set ← field.read
      readItems fields false (set sofar)
    else return sofar

/-- Read a record in either form. -/
def read (record : Record γ α) (steps : Nat) : Read α := do
  match ← Read.begin with
  | '\x7b' =>
    Scan.advance
    match record.complete (← record.readMembers steps true record.start) with
    | .ok value => return value
    | .error name => throw (.missingField name)
  | '[' =>
    Scan.advance
    match record.complete (← readItems record.fields true record.start) with
    | .ok value =>
      Read.closeList
      return value
    | .error name =>
      throw (.tooShort (record.fields.findIdx (·.name = name))
        s!"struct {record.name} with {record.fields.length} elements")
  | char => Read.unexpected char s!"struct {record.name}"

end Record

end Deferral.Stored

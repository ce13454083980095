import Deferral.Call

/-!
# Types and values with a type tag

The machines pass values of one type around. A program that works with values of many types tags
each value with its type and checks the tag where it takes the value back. The types are those of a
program's own, named by `ι`, and what the library adds to them: the unit, the type without values
that an endless computation has, and lists.
-/

namespace Deferral

/-- The types of the values in a program: base types, the type with one value, the type with none,
and lists. -/
inductive Ty (ι : Type) where
  | base (name : ι)
  | unit
  | never
  | list (item : Ty ι)
  deriving DecidableEq

/-- The values of a type, given those of the program's own types. -/
def Ty.Value {ι : Type} (Base : ι → Type) : Ty ι → Type
  | .base name => Base name
  | .unit => Unit
  | .never => Empty
  | .list item => List (item.Value Base)

/-- A value with its type. -/
structure Tagged {ι : Type} (Base : ι → Type) where
  type : Ty ι
  value : type.Value Base

namespace Tagged

variable {ι σ : Type} {Base : ι → Type} [DecidableEq ι]

/-- The value, if it has the given type. -/
def as? (type : Ty ι) (tagged : Tagged Base) : Option (type.Value Base) :=
  if same : tagged.type = type then some (same ▸ tagged.value) else none

/-- The value, which must have the given type; otherwise a panic with the given text. -/
def expect (complaint : String) (type : Ty ι) (tagged : Tagged Base) :
    Call σ (type.Value Base) :=
  match tagged.as? type with
  | some value => return value
  | none => Call.panic complaint

@[simp]
theorem as?_mk (type : Ty ι) (value : type.Value Base) :
    (⟨type, value⟩ : Tagged Base).as? type = some value := by
  simp [as?]

theorem as?_eq_none_iff (type : Ty ι) (tagged : Tagged Base) :
    tagged.as? type = none ↔ tagged.type ≠ type := by
  simp [as?]

@[simp]
theorem expect_mk (complaint : String) (type : Ty ι) (value : type.Value Base) :
    (⟨type, value⟩ : Tagged Base).expect complaint type = (pure value : Call σ _) := by
  simp [expect]

section Expect

variable {complaint : String} {type : Ty ι} {tagged : Tagged Base} {before after : σ}

/-- A value of the right type passes, and the world stays as it is. -/
theorem expect_eq_ok_iff {value : type.Value Base} :
    (tagged.expect complaint type : Call σ _) before = some (.ok value, after) ↔
      tagged = ⟨type, value⟩ ∧ before = after := by
  constructor
  · intro expected
    rcases tagged with ⟨found, tagged⟩
    by_cases same : found = type
    · subst same
      rw [expect_mk] at expected
      cases expected
      exact ⟨rfl, rfl⟩
    · rw [expect, (as?_eq_none_iff type _).mpr same] at expected
      cases expected
  · rintro ⟨rfl, rfl⟩
    rw [expect_mk]
    rfl

theorem expect_eq_error_iff {reason : Panic} :
    (tagged.expect complaint type : Call σ (type.Value Base)) before =
        some (.error reason, after) ↔
      tagged.type ≠ type ∧ reason = .text complaint ∧ before = after := by
  rw [expect, ← as?_eq_none_iff]
  cases tagged.as? type with
  | none => simp [Call.panic, eq_comm]
  | some value => simp

end Expect

end Tagged

end Deferral

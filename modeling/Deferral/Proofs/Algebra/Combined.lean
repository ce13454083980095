import Deferral.Algebra.Semigroup

/-!
# Combining in parts

All values of a list are combined from the left, beginning with the identity. As combining is
associative, the list may be cut into parts that are combined each by itself, and then the outcomes
are combined; as the identity changes nothing, it may stand anywhere in the list. The fold that
begins with the first value instead of the identity comes to the same, where there is a first value.

Nothing else is used of texts, lists and units, so this is proved for all values that satisfy the
laws of a monoid. For texts and lists it is also said what comes out: all elements in order.
-/

namespace Deferral

namespace Monoid

variable {α : Type} [Monoid α]

/-- Values with so many identities before each of them, and some more at the end. -/
def withIdentities (values : List (Nat × α)) (atEnd : Nat) : List α :=
  values.flatMap (fun (before, value) => .replicate before empty ++ [value]) ++
    .replicate atEnd empty

/-- What a list of values is combined to does not depend on where the list is cut, on the fold that
is used or on identities in the list. -/
structure CombinesInParts (α : Type) [Monoid α] : Prop where
  nil : combineAll [] = (empty : α)
  append : ∀ values more : List α,
    combineAll (values ++ more) = Semigroup.combine (combineAll values) (combineAll more)
  flatten : ∀ parts : List (List α), combineAll (parts.map combineAll) = combineAll parts.flatten
  /-- The fold may begin with the first value. -/
  reduceAll : ∀ values : List α, values ≠ [] → Semigroup.reduceAll values = some (combineAll values)
  reduceAll_eq_none_iff : ∀ values : List α, Semigroup.reduceAll values = none ↔ values = []
  withIdentities : ∀ (values : List (Nat × α)) (atEnd : Nat),
    combineAll (withIdentities values atEnd) = combineAll (values.map Prod.snd)

section Laws

variable [laws : Std.LawfulIdentity (Semigroup.combine (α := α)) empty]

theorem combineAll_singleton (value : α) : combineAll [value] = value :=
  laws.left_id value

theorem reduceAll_cons (first : α) (rest : List α) :
    Semigroup.reduceAll (first :: rest) = some (combineAll (first :: rest)) := by
  rw [combineAll, List.foldl_cons, laws.left_id]
  rfl

variable [Std.Associative (Semigroup.combine (α := α))]

theorem combineAll_append (values more : List α) :
    combineAll (values ++ more) = Semigroup.combine (combineAll values) (combineAll more) := by
  calc combineAll (values ++ more)
      = more.foldl Semigroup.combine (combineAll values) := List.foldl_append
    _ = more.foldl Semigroup.combine (Semigroup.combine (combineAll values) empty) := by
        rw [laws.right_id]
    _ = Semigroup.combine (combineAll values) (combineAll more) := List.foldl_assoc

theorem combineAll_cons (value : α) (rest : List α) :
    combineAll (value :: rest) = Semigroup.combine value (combineAll rest) := by
  rw [← List.singleton_append, combineAll_append, combineAll_singleton]

theorem combineAll_flatten (parts : List (List α)) :
    combineAll (parts.map combineAll) = combineAll parts.flatten := by
  induction parts with
  | nil => rfl
  | cons part parts ih => simp [combineAll_cons, combineAll_append, ih]

theorem combineAll_replicate_empty (count : Nat) :
    combineAll (.replicate count empty) = (empty : α) := by
  induction count with
  | zero => rfl
  | succ count ih => simp [List.replicate_succ, combineAll_cons, ih, laws.left_id]

/-- A value and the identities before it are a part of their own, which comes to the value. -/
theorem combineAll_withIdentities (values : List (Nat × α)) (atEnd : Nat) :
    combineAll (withIdentities values atEnd) = combineAll (values.map Prod.snd) := by
  have part (before : Nat) (value : α) :
      combineAll (.replicate before empty ++ [value]) = value := by
    rw [combineAll_append, combineAll_replicate_empty, combineAll_singleton, laws.left_id]
  rw [withIdentities, combineAll_append, combineAll_replicate_empty, laws.right_id, List.flatMap,
    ← combineAll_flatten]
  simp [Function.comp_def, part]

theorem combinesInParts : CombinesInParts α where
  nil := rfl
  append := combineAll_append
  flatten := combineAll_flatten
  reduceAll values not_empty := by
    rcases List.exists_cons_of_ne_nil not_empty with ⟨first, rest, rfl⟩
    exact reduceAll_cons first rest
  reduceAll_eq_none_iff values := by
    cases values with
    | nil => exact ⟨fun _ => rfl, fun _ => rfl⟩
    | cons first rest => simp [reduceAll_cons]
  withIdentities := combineAll_withIdentities

end Laws

theorem toList_combineAll (texts : List String) :
    (combineAll texts).toList = texts.flatMap String.toList := by
  induction texts with
  | nil => rfl
  | cons text texts ih =>
      rw [combineAll_cons, List.flatMap_cons, ← ih]
      exact String.toList_append

theorem combineAll_lists {β : Type} (lists : List (List β)) : combineAll lists = lists.flatten := by
  induction lists with
  | nil => rfl
  | cons list lists ih =>
      rw [combineAll_cons, List.flatten_cons, ← ih]
      rfl

/-- Texts, lists and units may be combined in parts. From texts and lists come all of their elements
in order. -/
theorem combined_in_parts :
    (CombinesInParts String ∧
      ∀ texts : List String, (combineAll texts).toList = texts.flatMap String.toList) ∧
    (∀ β : Type, CombinesInParts (List β) ∧
      ∀ lists : List (List β), combineAll lists = lists.flatten) ∧
    CombinesInParts Unit := by
  refine ⟨⟨combinesInParts, toList_combineAll⟩, ?_, combinesInParts⟩
  intro β
  exact ⟨combinesInParts, combineAll_lists⟩

end Monoid

end Deferral

/-!
# Combining values

A semigroup has an associative way to combine two values, and a monoid has an identity for it as
well. Texts and lists are combined by writing one after the other, units in the only way there is.
Texts may also be combined with a separator between them, which is associative too but has no
identity.
-/

namespace Deferral

/-- Data of which two pieces can be put together. That the grouping makes no difference is proved
for each instance, not assumed here. -/
class Semigroup (α : Type) where
  combine : α → α → α

/-- Values that can be combined, with one that changes nothing. -/
class Monoid (α : Type) extends Semigroup α where
  empty : α

namespace Semigroup

variable {α : Type}

/-- Combine all values of a list from the left, if there are any, in the given way. -/
def reduceWith (combine : α → α → α) : List α → Option α
  | [] => none
  | first :: rest => some (rest.foldl combine first)

/-- All values put together, the first one first, or nothing for an empty list. -/
def reduceAll [Semigroup α] (values : List α) : Option α :=
  reduceWith combine values

end Semigroup

namespace Monoid

variable {α : Type}

/-- Combine all values of a list from the left, beginning with the identity. -/
def combineAll [Monoid α] (values : List α) : α :=
  values.foldl Semigroup.combine empty

end Monoid

instance : Monoid String where
  combine first second := first ++ second
  empty := ""

instance (α : Type) : Monoid (List α) where
  combine first second := first ++ second
  empty := []

instance : Monoid Unit where
  combine _ _ := ()
  empty := ()

/-! The three ways to combine are associative, and the identities change nothing on either side. -/

instance : Std.Associative (Semigroup.combine : String → String → String) where
  assoc _ _ _ := String.append_assoc

instance : Std.LawfulIdentity (Semigroup.combine : String → String → String) Monoid.empty where
  left_id _ := String.empty_append
  right_id _ := String.append_empty

instance (α : Type) : Std.Associative (Semigroup.combine : List α → List α → List α) where
  assoc := List.append_assoc

instance (α : Type) :
    Std.LawfulIdentity (Semigroup.combine : List α → List α → List α) Monoid.empty where
  left_id := List.nil_append
  right_id := List.append_nil

instance : Std.Associative (Semigroup.combine : Unit → Unit → Unit) where
  assoc _ _ _ := rfl

instance : Std.LawfulIdentity (Semigroup.combine : Unit → Unit → Unit) Monoid.empty where
  left_id _ := rfl
  right_id _ := rfl

/-- Two texts with a separator in between. -/
def separatedBy (separator first second : String) : String :=
  first ++ separator ++ second

theorem separatedBy_assoc (separator first second third : String) :
    separatedBy separator (separatedBy separator first second) third =
      separatedBy separator first (separatedBy separator second third) := by
  simp [separatedBy, String.append_assoc]

instance (separator : String) : Std.Associative (separatedBy separator) where
  assoc := separatedBy_assoc separator

end Deferral

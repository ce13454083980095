import Deferral.Proofs.Validation.Schedule
import Deferral.Proofs.Validation.Splitting

/-!
# Joined texts

A list of texts is joined by combining two texts at a time with a separator between them. In
whichever grouping this is done, the outcome is the texts in order with one separator between
neighbours. The fold from the left is one of the groupings, and validation is this fold over the
reasons of the operands that fail. So the reasons of a validation are found again by splitting its
failure at the separator, if this is a character that none of them has.
-/

namespace Deferral

/-- A grouping of one or more values, two of which are combined at a time. -/
inductive Grouping (α : Type) where
  | single (value : α)
  | pair (first second : Grouping α)

namespace Grouping

variable {α : Type}

/-- The values that are grouped, in order. -/
def values : Grouping α → List α
  | single value => [value]
  | pair first second => first.values ++ second.values

/-- Combine the values as they are grouped. -/
def combined (combine : α → α → α) : Grouping α → α
  | single value => value
  | pair first second => combine (first.combined combine) (second.combined combine)

/-- The grouping of a fold from the left. -/
def fromLeft (first : α) (rest : List α) : Grouping α :=
  rest.foldl (fun sofar next => pair sofar (single next)) (single first)

@[simp]
theorem values_fromLeft (first : α) (rest : List α) :
    (fromLeft first rest).values = first :: rest := by
  have fold (sofar : Grouping α) :
      (rest.foldl (fun sofar next => pair sofar (single next)) sofar).values =
        sofar.values ++ rest := by
    induction rest generalizing sofar with
    | nil => simp
    | cons next rest ih => simp [ih, values]
  exact fold (single first)

theorem combined_fromLeft (combine : α → α → α) (first : α) (rest : List α) :
    (fromLeft first rest).combined combine = rest.foldl combine first := by
  have fold (sofar : Grouping α) :
      (rest.foldl (fun sofar next => pair sofar (single next)) sofar).combined combine =
        rest.foldl combine (sofar.combined combine) := by
    induction rest generalizing sofar with
    | nil => rfl
    | cons next rest ih => simp [ih, combined]
  exact fold (single first)

theorem values_ne_nil (grouping : Grouping α) : grouping.values ≠ [] := by
  induction grouping with
  | single value => simp [values]
  | pair first second first_ne _ => simp [values, first_ne]

/-- Whatever the grouping, there is one separator between neighbours. -/
theorem combined_separatedBy (separator : String) (grouping : Grouping String) :
    grouping.combined (separatedBy separator) = separator.intercalate grouping.values := by
  induction grouping with
  | single value => simp [combined, values]
  | pair first second first_eq second_eq =>
      rw [combined, first_eq, second_eq, separatedBy, values,
        String.intercalate_append_of_ne_nil first.values_ne_nil second.values_ne_nil]

end Grouping

theorem foldl_separatedBy (separator first : String) (rest : List String) :
    rest.foldl (separatedBy separator) first = separator.intercalate (first :: rest) := by
  rw [← Grouping.combined_fromLeft, Grouping.combined_separatedBy, Grouping.values_fromLeft]

namespace Outcome

variable {ε α : Type} {m : Type → Type} [Monad m] [LawfulMonad m]

/-- After a failure each further one is combined with what there is, and nothing else is done. -/
theorem foldlM_zipAppend_failure (combine : ε → ε → ε) (outcomes : List (Outcome ε α))
    (previous : ε) :
    (outcomes.foldlM (zipAppend (plainly combine)) (.failure previous) : m (Outcome ε (List α))) =
      pure (.failure ((outcomes.filterMap reason?).foldl combine previous)) := by
  induction outcomes generalizing previous with
  | nil => simp
  | cons outcome outcomes ih =>
      cases outcome with
      | success value => simp [ih, List.filterMap_cons]
      | failure reason => simp [ih, plainly]

/-- The first failure takes the place of the values. -/
theorem foldlM_zipAppend_success (combine : ε → ε → ε) (outcomes : List (Outcome ε α))
    (values : List α) {first : ε} {rest : List ε}
    (reasons : outcomes.filterMap reason? = first :: rest) :
    (outcomes.foldlM (zipAppend (plainly combine)) (.success values) : m (Outcome ε (List α))) =
      pure (.failure (rest.foldl combine first)) := by
  induction outcomes generalizing values with
  | nil => cases reasons
  | cons outcome outcomes ih =>
      cases outcome with
      | success value =>
          rw [List.filterMap_cons_none (reason?_success value)] at reasons
          simp [ih (values ++ [value]) reasons]
      | failure reason =>
          rw [List.filterMap_cons_some (reason?_failure reason)] at reasons
          cases reasons
          simp [foldlM_zipAppend_failure]

/-- A validation fails with the reasons that there are, folded from the left. -/
theorem validateAll_plainly (combine : ε → ε → ε) (outcomes : List (Outcome ε α)) {first : ε}
    {rest : List ε} (reasons : outcomes.filterMap reason? = first :: rest) :
    (validateAll (plainly combine) (outcomes.map pure) : m (Outcome ε (List α))) =
      pure (.failure (rest.foldl combine first)) := by
  rw [validateAll_pure, foldlM_zipAppend_success combine outcomes [] reasons]

/-- Texts that are joined with a separator are in order and have one separator between neighbours,
whether they are folded from the left or grouped in another way. A validation in which something
fails fails with the reasons joined like this, and none of the reasons is lost: where the separator
is a character that no reason has, splitting the failure at it gives all of them in the order of the
operands. -/
theorem reasons_joined (α : Type) :
    (∀ separator (texts : List String), texts ≠ [] →
      Semigroup.reduceWith (separatedBy separator) texts = some (separator.intercalate texts) ∧
      ∀ grouping : Grouping String, grouping.values = texts →
        grouping.combined (separatedBy separator) = separator.intercalate texts) ∧
    (∀ separator (outcomes : List (Outcome String α)), outcomes.filterMap reason? ≠ [] →
      (validateAll (plainly (separatedBy separator)) (outcomes.map pure) : m _) =
        pure (.failure (separator.intercalate (outcomes.filterMap reason?)))) ∧
    ∀ (character : Char) (outcomes : List (Outcome String α)), outcomes.filterMap reason? ≠ [] →
      (∀ reason ∈ outcomes.filterMap reason?, character ∉ reason.toList) →
      ∃ failure : String,
        (validateAll (plainly (separatedBy (.singleton character))) (outcomes.map pure) : m _) =
          pure (.failure failure) ∧
        (failure.split character).toList.map String.Slice.copy = outcomes.filterMap reason? := by
  have joined (separator : String) (outcomes : List (Outcome String α))
      (some_fail : outcomes.filterMap reason? ≠ []) :
      (validateAll (plainly (separatedBy separator)) (outcomes.map pure) : m _) =
        pure (.failure (separator.intercalate (outcomes.filterMap reason?))) := by
    rcases List.exists_cons_of_ne_nil some_fail with ⟨first, rest, reasons⟩
    rw [validateAll_plainly _ outcomes reasons, foldl_separatedBy, reasons]
  refine ⟨?_, joined, ?_⟩
  · intro separator texts not_empty
    constructor
    · rcases List.exists_cons_of_ne_nil not_empty with ⟨first, rest, rfl⟩
      rw [Semigroup.reduceWith, foldl_separatedBy]
    · rintro grouping rfl
      exact grouping.combined_separatedBy separator
  · intro character outcomes some_fail absent
    refine ⟨_, joined _ outcomes some_fail, ?_⟩
    rw [String.toList_split_intercalate absent, if_neg some_fail]

section Sample

/-- Two empty reasons, one that is not, and a success. -/
abbrev sampleReasons : List (Outcome String Nat) :=
  [.failure "", .failure "a b", .success 1, .failure ""]

/-- Two of three reasons are empty, and one operand does not fail. -/
theorem empty_reasons_joined :
    sampleReasons.filterMap reason? = ["", "a b", ""] ∧
    (validateAll (plainly (separatedBy "|")) (sampleReasons.map pure) : Id _) = .failure "|a b|" ∧
    ("|a b|".split '|').toList.map String.Slice.copy = ["", "a b", ""] := by
  have validated : (validateAll (plainly (separatedBy "|")) (sampleReasons.map pure) : Id _) =
      .failure "|a b|" := rfl
  rcases (reasons_joined (m := Id) Nat).2.2 '|' sampleReasons (by decide) (by decide) with
    ⟨failure, failed, split⟩
  cases validated.symm.trans failed
  exact ⟨rfl, validated, split⟩

end Sample

end Outcome

end Deferral

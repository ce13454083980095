import Deferral.Algebra.Semigroup
import Deferral.Proofs.Validation.Pairwise
import Mathlib.Data.List.Induction

/-!
# Validation in parts

A list of outcomes may be validated in two parts, whose verdicts are then validated as a pair. The
reasons are still combined in the order of the operands, but grouped otherwise: those of the second
part are combined with each other first. So nothing changes if it makes no difference how three
reasons are grouped. The functions that combine texts, lists and units are of this kind.

A verdict that is put together from two parts is again like the verdict of one list. Verdicts can be
put together in any grouping, and the verdict on no operand changes nothing, so the operands of the
second part may as well be added one by one to the verdict on the first.
-/

namespace Deferral

variable {ε α : Type} {m : Type → Type} [Monad m]

namespace Outcome

/-- It makes no difference which two of three reasons are combined first. -/
def Regroups (combine : ε → ε → m ε) : Prop :=
  ∀ first second third,
    (do combine (← combine first second) third) = (do combine first (← combine second third))

/-- A function without effects, as one to combine reasons with. -/
def plainly (combine : ε → ε → ε) (first second : ε) : m ε :=
  return combine first second

/-- Validate two outcomes with lists of values, and put one list after the other. -/
def zipConcat (combine : ε → ε → m ε) (first second : Outcome ε (List α)) :
    m (Outcome ε (List α)) := do
  return (← first.zipValidate combine second).map fun (values, more) => values ++ more

/-- A list of outcomes may be validated in two parts, wherever it is split. -/
def SplitsAnywhere (α : Type) (combine : ε → ε → m ε) : Prop :=
  ∀ first second : List (Outcome ε α),
    validateAll combine ((first ++ second).map pure) = do
      let verdict ← validateAll combine (first.map pure)
      let further ← validateAll combine (second.map pure)
      return (← verdict.zipValidate combine further).map fun (values, more) => values ++ more

variable [LawfulMonad m]

section Verdicts

variable (combine : ε → ε → m ε) (values more : List α) (previous reason : ε)

@[simp]
theorem zipConcat_success_success :
    zipConcat combine (.success values) (.success more) = pure (.success (values ++ more)) := by
  simp [zipConcat, zipValidate, map]

@[simp]
theorem zipConcat_success_failure :
    zipConcat combine (.success values) (.failure reason) = pure (.failure reason) := by
  simp [zipConcat, zipValidate, map]

@[simp]
theorem zipConcat_failure_success :
    zipConcat combine (.failure previous) (.success values) = pure (.failure previous) := by
  simp [zipConcat, zipValidate, map]

@[simp]
theorem zipConcat_failure_failure :
    (zipConcat combine (.failure previous) (.failure reason) : m (Outcome ε (List α))) =
      .failure <$> combine previous reason := by
  simp [zipConcat, zipValidate, map]

theorem zipAppend_eq_zipConcat (sofar : Outcome ε (List α)) (outcome : Outcome ε α) :
    zipAppend combine sofar outcome = zipConcat combine sofar (outcome.map ([·])) := by
  cases sofar with
  | success values => cases outcome <;> simp [map]
  | failure previous => cases outcome <;> simp [map]

theorem zipConcat_nil (verdict : Outcome ε (List α)) :
    zipConcat combine verdict (.success []) = pure verdict := by
  cases verdict <;> simp

end Verdicts

variable {combine : ε → ε → m ε}

theorem zipConcat_assoc (regroups : Regroups combine) (first second third : Outcome ε (List α)) :
    (do zipConcat combine (← zipConcat combine first second) third) =
      (do zipConcat combine first (← zipConcat combine second third)) := by
  cases first with
  | success values => cases second <;> cases third <;> simp
  | failure reason =>
      cases second with
      | success values => cases third <;> simp
      | failure further =>
          cases third with
          | success values => simp
          | failure last =>
              have regrouped := congrArg (Outcome.failure (α := List α) <$> ·)
                (regroups reason further last)
              simpa using regrouped

/-- To add operand after operand to a verdict is to add the verdict on all of them. -/
theorem foldlM_zipAppend (regroups : Regroups combine) (outcomes : List (Outcome ε α))
    (sofar : Outcome ε (List α)) :
    outcomes.foldlM (zipAppend combine) sofar =
      outcomes.foldlM (zipAppend combine) (.success []) >>= zipConcat combine sofar := by
  induction outcomes using List.reverseRecOn with
  | nil => simp [zipConcat_nil]
  | append_singleton outcomes outcome ih =>
      simp only [List.foldlM_append, List.foldlM_cons, List.foldlM_nil, bind_pure, ih, bind_assoc]
      apply bind_congr
      intro further
      simp only [zipAppend_eq_zipConcat]
      exact zipConcat_assoc regroups sofar further (outcome.map ([·]))

theorem Regroups.splitsAnywhere (regroups : Regroups combine) : SplitsAnywhere α combine := by
  intro first second
  simp only [validateAll_pure, List.foldlM_append]
  apply bind_congr
  intro verdict
  exact foldlM_zipAppend regroups second verdict

theorem regroups_plainly (combine : ε → ε → ε) [associative : Std.Associative combine] :
    Regroups (plainly combine : ε → ε → m ε) := by
  intro first second third
  simp [plainly, associative.assoc]

/-- Validation can be split anywhere if it makes no difference how reasons are grouped, whatever
effects it has to combine them; a function without effects has only to be associative. To combine
texts, lists or units and to join texts with a separator are associative. -/
theorem validation_splits (α : Type) :
    (∀ {ε : Type} (combine : ε → ε → m ε), Regroups combine → SplitsAnywhere α combine) ∧
    (∀ {ε : Type} (combine : ε → ε → ε), Std.Associative combine →
      SplitsAnywhere α (plainly combine : ε → ε → m ε)) ∧
    (Std.Associative (Semigroup.combine : String → String → String) ∧
      SplitsAnywhere α (plainly Semigroup.combine : String → String → m String)) ∧
    (∀ β : Type, Std.Associative (Semigroup.combine : List β → List β → List β) ∧
      SplitsAnywhere α (plainly Semigroup.combine : List β → List β → m (List β))) ∧
    (Std.Associative (Semigroup.combine : Unit → Unit → Unit) ∧
      SplitsAnywhere α (plainly Semigroup.combine : Unit → Unit → m Unit)) ∧
    ∀ separator, Std.Associative (separatedBy separator) ∧
      SplitsAnywhere α (plainly (separatedBy separator) : String → String → m String) := by
  have plain {ε : Type} (combine : ε → ε → ε) (associative : Std.Associative combine) :
      SplitsAnywhere α (plainly combine : ε → ε → m ε) :=
    (regroups_plainly combine).splitsAnywhere
  refine ⟨?_, plain, ?_, ?_, ?_, ?_⟩
  · intro ε combine regroups
    exact regroups.splitsAnywhere
  · exact ⟨inferInstance, plain _ inferInstance⟩
  · intro β
    exact ⟨inferInstance, plain _ inferInstance⟩
  · exact ⟨inferInstance, plain _ inferInstance⟩
  · intro separator
    exact ⟨inferInstance, plain _ inferInstance⟩

section Sample

/-- A failure and a success. -/
abbrev sampleFront : List (Outcome String Nat) := [.failure "a", .success 1]

/-- A success between two failures. -/
abbrev sampleBack : List (Outcome String Nat) := [.failure "b", .success 2, .failure "c"]

/-- The two failures behind the split are joined with each other before the first one is. -/
theorem splits_three_failures :
    Regroups (plainly (separatedBy ", ") : String → String → Id String) ∧
    (validateAll (plainly (separatedBy ", ")) (sampleFront.map pure) : Id _) = .failure "a" ∧
    (validateAll (plainly (separatedBy ", ")) (sampleBack.map pure) : Id _) = .failure "b, c" ∧
    (validateAll (plainly (separatedBy ", ")) ((sampleFront ++ sampleBack).map pure) : Id _) =
      .failure "a, b, c" := by
  have regroups : Regroups (plainly (separatedBy ", ") : String → String → Id String) :=
    regroups_plainly _
  refine ⟨regroups, rfl, rfl, ?_⟩
  rw [(validation_splits Nat).1 _ regroups sampleFront sampleBack]
  rfl

end Sample

end Outcome

end Deferral

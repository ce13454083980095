import Deferral.Proofs.Validation.Pairwise

/-!
# Tuples validated as lists

The values of a tuple have types of their own. Seen through functions into one type, which may be
different for each place, a tuple of operands is a list of operands and a tuple of values is a list
of values. Validating the tuple then makes the same calls in the same order as validating the list,
and has the same result. Nothing is lost in this way, since the functions are arbitrary: they may as
well single out one place and leave its values as they are.

The tuple keeps a slot for every value, and a slot is empty only after a failure. So what is to be
done when a value is missing although nothing failed is never done.
-/

namespace Deferral

variable {ε α β : Type} {m : Type → Type}

/-- A function into one type for each of the given types. -/
def Views (β : Type) : List Type → Type
  | [] => Unit
  | α :: αs => (α → β) × Views β αs

/-- The tuple of operands as a list. -/
def Operands.listed : (αs : List Type) → Views β αs → Operands ε αs → List (Outcome ε β)
  | [], _, _ => []
  | _ :: αs, (view, views), (outcome, operands) => outcome.map view :: listed αs views operands

/-- The tuple of values as a list. -/
def Payloads.listed : (αs : List Type) → Views β αs → Payloads αs → List β
  | [], _, _ => []
  | _ :: αs, (view, views), (value, values) => view value :: listed αs views values

/-- The values that are there. -/
def Slots.listed : (αs : List Type) → Views β αs → Slots αs → List β
  | [], _, _ => []
  | _ :: αs, (_, views), (none, slots) => listed αs views slots
  | _ :: αs, (view, views), (some value, slots) => view value :: listed αs views slots

/-- The same function for the values of every item of a list. -/
def Views.same (view : α → β) {γ : Type} : (items : List γ) → Views β (items.map fun _ => α)
  | [] => ()
  | _ :: items => (view, same view items)

theorem Slots.listed_of_payloads? (αs : List Type) (views : Views β αs) (slots : Slots αs)
    {values : Payloads αs} (filled : payloads? αs slots = some values) :
    slots.listed αs views = values.listed αs views := by
  induction αs with
  | nil => rfl
  | cons first αs ih =>
      rcases views with ⟨view, views⟩
      rcases slots with ⟨_ | value, slots⟩
      · cases filled
      · rcases Option.map_eq_some_iff.mp filled with ⟨rest, rest_filled, rfl⟩
        simp only [Slots.listed, Payloads.listed, ih views slots rest_filled]

namespace Operands

/-- Nothing is missing unless something failed. -/
def Filled (αs : List Type) (sofar : Option ε) : Option ε × Slots αs → Prop
  | (some _, _) => True
  | (none, slots) => sofar = none ∧ (Slots.payloads? αs slots).isSome

variable [Monad m] [LawfulMonad m]

/-- What is done with the result of looking at all operands matters only where nothing is missing
unless something failed. -/
theorem gather_bind_congr (combine : ε → ε → m ε) (αs : List Type) (sofar : Option ε)
    (operands : Operands ε αs) {first second : Option ε × Slots αs → m β}
    (agree : ∀ kept, Filled αs sofar kept → first kept = second kept) :
    gather combine αs sofar operands >>= first = gather combine αs sofar operands >>= second := by
  induction αs generalizing sofar with
  | nil =>
      simp only [gather, pure_bind]
      cases sofar with
      | none => exact agree (none, ()) ⟨rfl, rfl⟩
      | some reason => exact agree (some reason, ()) trivial
  | cons type αs ih =>
      rcases operands with ⟨outcome, operands⟩
      cases outcome with
      | success value =>
          simp only [gather, bind_assoc, pure_bind]
          apply ih
          rintro ⟨_ | reason, slots⟩ filled
          · have longer : ((Slots.payloads? αs slots).map (value, ·)).isSome := by
              simpa using filled.2
            exact agree _ ⟨filled.1, longer⟩
          · exact agree _ trivial
      | failure reason =>
          simp only [gather, bind_assoc, pure_bind]
          apply bind_congr
          intro combined
          apply ih
          rintro ⟨_ | reason, slots⟩ filled
          · cases filled.1
          · exact agree _ trivial

/-- What stands in the place where a value is missing although nothing failed makes no difference.
-/
theorem validateOr_eq (combine : ε → ε → m ε) (αs : List Type)
    (otherwise instead : m (Outcome ε (Payloads αs))) (operands : Operands ε αs) :
    validateOr combine αs otherwise operands = validateOr combine αs instead operands := by
  apply gather_bind_congr
  rintro ⟨_ | reason, slots⟩ filled
  · rcases Option.isSome_iff_exists.mp filled.2 with ⟨values, filled⟩
    simp only [filled]
  · rfl

/-- The verdict on what was kept of a tuple, after some values of operands before it. -/
def verdictOn (before : List β) (αs : List Type) (views : Views β αs) :
    Option ε × Slots αs → Outcome ε (List β)
  | (some reason, _) => .failure reason
  | (none, slots) => .success (before ++ slots.listed αs views)

theorem verdict_addAll_listed (combine : ε → ε → m ε) (αs : List Type) (views : Views β αs)
    (operands : Operands ε αs) (tally : Outcome.Tally ε β) :
    Outcome.Tally.verdict <$> tally.addAll combine ((operands.listed αs views).map pure) =
      verdictOn tally.values.reverse αs views <$> gather combine αs tally.reason? operands := by
  induction αs generalizing tally with
  | nil =>
      rcases tally with ⟨values, _ | reason⟩
      · simp [listed, Outcome.Tally.addAll, Outcome.Tally.verdict, gather, verdictOn, Slots.listed]
      · simp [listed, Outcome.Tally.addAll, Outcome.Tally.verdict, gather, verdictOn]
  | cons type αs ih =>
      rcases views with ⟨view, views⟩
      rcases operands with ⟨outcome, operands⟩
      -- After a failure the verdicts do not depend on what was kept, so it does no harm that only
      -- the list gives up its values.
      simp only [listed, List.map_cons, Outcome.Tally.addAll, pure_bind, map_bind]
      cases outcome with
      | success value =>
          simp only [Outcome.map, Outcome.Tally.add, pure_bind, ih, gather, map_bind, map_pure]
          rw [map_eq_pure_bind]
          rcases tally with ⟨values, _ | reason⟩
          · apply bind_congr
            rintro ⟨_ | reason, slots⟩ <;> simp [verdictOn, Slots.listed]
          · apply gather_bind_congr
            rintro ⟨_ | reason, slots⟩ filled
            · cases filled.1
            · rfl
      | failure reason =>
          simp only [Outcome.map, Outcome.Tally.add, bind_assoc, pure_bind, ih, gather, map_bind,
            map_pure]
          apply bind_congr
          intro combined
          rw [map_eq_pure_bind]
          apply gather_bind_congr
          rintro ⟨_ | reason, slots⟩ filled
          · cases filled.1
          · rfl

theorem validateAll_listed (combine : ε → ε → m ε) (αs : List Type) (views : Views β αs)
    (operands : Operands ε αs) :
    Outcome.validateAll combine ((operands.listed αs views).map pure) =
      verdictOn [] αs views <$> gather combine αs none operands := by
  rw [Outcome.validateAll, ← map_eq_pure_bind]
  exact verdict_addAll_listed combine αs views operands .empty

theorem listed_validateOr (combine : ε → ε → m ε) (αs : List Type) (views : Views β αs)
    (otherwise : m (Outcome ε (Payloads αs))) (operands : Operands ε αs) :
    Outcome.map (Payloads.listed αs views) <$> validateOr combine αs otherwise operands =
      verdictOn [] αs views <$> gather combine αs none operands := by
  rw [validateOr, map_bind, map_eq_pure_bind]
  apply gather_bind_congr
  rintro ⟨_ | reason, slots⟩ filled
  · rcases Option.isSome_iff_exists.mp filled.2 with ⟨values, filled⟩
    simp [filled, verdictOn, Outcome.map, Slots.listed_of_payloads? αs views slots filled]
  · simp [verdictOn, Outcome.map]

theorem listed_validate [MonadExceptOf Panic m] (combine : ε → ε → m ε) (αs : List Type)
    (views : Views β αs) (operands : Operands ε αs) :
    Outcome.map (Payloads.listed αs views) <$> validate combine αs operands =
      Outcome.validateAll combine ((operands.listed αs views).map pure) := by
  rw [validate, listed_validateOr, validateAll_listed]

end Operands

section OfList

variable (outcomes : List (Outcome ε α))

theorem Operands.listed_ofList :
    (Operands.ofList outcomes).listed _ (Views.same id outcomes) = outcomes := by
  induction outcomes with
  | nil => rfl
  | cons outcome outcomes ih =>
      cases outcome with
      | success value => exact congrArg (Outcome.success value :: ·) ih
      | failure reason => exact congrArg (Outcome.failure reason :: ·) ih

theorem Payloads.listed_same {γ : Type} (items : List γ)
    (values : Payloads (items.map fun _ => α)) :
    values.listed _ (Views.same id items) = Payloads.toList items values := by
  induction items with
  | nil => rfl
  | cons item items ih =>
      rcases values with ⟨value, values⟩
      exact congrArg (value :: ·) (ih values)

end OfList

variable [Monad m] [LawfulMonad m] [MonadExceptOf Panic m]

/-- The ways to accumulate failures agree, call for call and in the result. A list is validated as
by the fold that validates a pair for each item and appends the value of the item. A tuple of any
types is validated as the list of its operands is, and never comes to the case in which a value is
missing although nothing failed, whatever would be done there. -/
theorem accumulating_paths_agree (combine : ε → ε → m ε) :
    (∀ outcomes : List (Outcome ε α), Outcome.validateAll combine (outcomes.map pure) =
      outcomes.foldlM (fun sofar outcome => do
        return (← sofar.zipValidate combine outcome).map fun (values, value) => values ++ [value])
        (.success [])) ∧
    (∀ (αs : List Type) (β : Type) (views : Views β αs) (operands : Operands ε αs),
      Outcome.map (Payloads.listed αs views) <$> Operands.validate combine αs operands =
        Outcome.validateAll combine ((operands.listed αs views).map pure)) ∧
    (∀ outcomes : List (Outcome ε α),
      Outcome.map (Payloads.toList outcomes) <$>
          Operands.validate combine _ (Operands.ofList outcomes) =
        Outcome.validateAll combine (outcomes.map pure)) ∧
    ∀ (αs : List Type) (operands : Operands ε αs) (otherwise : m (Outcome ε (Payloads αs))),
      Operands.validateOr combine αs otherwise operands =
        Operands.validate combine αs operands := by
  refine ⟨?_, ?_, ?_, ?_⟩
  · intro outcomes
    exact Outcome.validateAll_pure combine outcomes
  · intro αs β views operands
    exact Operands.listed_validate combine αs views operands
  · intro outcomes
    have listed := Operands.listed_validate combine _ (Views.same id outcomes)
      (Operands.ofList outcomes)
    rw [Operands.listed_ofList] at listed
    rw [← listed]
    apply map_congr
    intro outcome
    cases outcome with
    | success values => simp [Outcome.map, Payloads.listed_same]
    | failure reason => rfl
  · intro αs operands otherwise
    exact Operands.validateOr_eq combine αs otherwise _ operands

/-- Combine two texts and write down that this was done. -/
def loudly (first second : String) : Call (List String) String :=
  Call.change fun heard => (first ++ second, heard ++ [first ++ "+" ++ second])

/-- A tuple of three types, of which two fail, validated as a tuple and as a list. -/
theorem loudly_paths_agree :
    LawfulMonad (Call (List String)) ∧
    Outcome.map (Payloads.listed [Nat, Bool, Unit] (toString, toString, fun _ => "unit", ())) <$>
        Operands.validate loudly [Nat, Bool, Unit]
          (.failure "no number", .success true, .failure "no unit", ()) =
      Outcome.validateAll loudly
        [pure (.failure "no number"), pure (.success "true"), pure (.failure "no unit")] ∧
    Operands.validate loudly [Nat, Bool, Unit]
        (.failure "no number", .success true, .failure "no unit", ()) [] =
      some (.ok (.failure "no numberno unit"), ["no number+no unit"]) := by
  refine ⟨inferInstance, ?_, rfl⟩
  have agree := accumulating_paths_agree (α := Unit) loudly
  exact agree.2.1 [Nat, Bool, Unit] String _ _

end Deferral

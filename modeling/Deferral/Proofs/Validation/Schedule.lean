import Deferral.Outcome.Validation

/-!
# The schedule of a validation

Validating a sequence makes two kinds of calls: it obtains an operand, or it combines a reason with
those before it. `Schedule` says which calls these are and in which order, if the operands turn out
to be such and such and the combined reasons too. Each operand is obtained once, and the reasons are
combined in a chain, each as soon as it is there.
-/

namespace Deferral.Outcome

variable {ε α : Type}

section Parts

variable (value : α) (reason : ε)

@[simp]
theorem value?_success : (success value : Outcome ε α).value? = some value := rfl

@[simp]
theorem value?_failure : (failure reason : Outcome ε α).value? = none := rfl

@[simp]
theorem reason?_success : (success value : Outcome ε α).reason? = none := rfl

@[simp]
theorem reason?_failure : (failure reason : Outcome ε α).reason? = some reason := rfl

end Parts

/-- A call that a validation makes, with what came of it. -/
inductive Made (ε α : Type) where
  /-- The operand with this number, counted from zero, was obtained. -/
  | pulled (index : Nat) (outcome : Outcome ε α)
  | combined (first second result : ε)

namespace Made

/-- The outcome that was pulled and its index, if this was a pull. -/
def pulled? : Made ε α → Option (Outcome ε α × Nat)
  | .pulled index outcome => some (outcome, index)
  | .combined .. => none

/-- The reason of an operand that was obtained and is a failure. -/
def failed? (made : Made ε α) : Option ε :=
  made.pulled?.bind fun (outcome, _) => outcome.reason?

/-- The reasons that were combined and the result, if this was a combination. -/
def combined? : Made ε α → Option (ε × ε × ε)
  | .pulled .. => none
  | .combined first second result => some (first, second, result)

section Parts

variable (index : Nat) (outcome : Outcome ε α) (first second result : ε)

@[simp]
theorem pulled?_pulled : (pulled index outcome).pulled? = some (outcome, index) := rfl

@[simp]
theorem pulled?_combined : (combined first second result : Made ε α).pulled? = none := rfl

@[simp]
theorem failed?_pulled : (pulled index outcome).failed? = outcome.reason? := rfl

@[simp]
theorem failed?_combined : (combined first second result : Made ε α).failed? = none := rfl

@[simp]
theorem combined?_pulled : (pulled index outcome).combined? = none := rfl

@[simp]
theorem combined?_combined :
    (combined first second result : Made ε α).combined? = some (first, second, result) := rfl

end Parts

end Made

/-- What is to be done about the operand with a number, and what there is then. -/
inductive Adds (index : Nat) :
    Outcome ε (List α) → Outcome ε α → List (Made ε α) → Outcome ε (List α) → Prop
  | keeps (values : List α) (value : α) :
      Adds index (.success values) (.success value) [.pulled index (.success value)]
        (.success (values ++ [value]))
  | ignores (previous : ε) (value : α) :
      Adds index (.failure previous) (.success value) [.pulled index (.success value)]
        (.failure previous)
  | fails (values : List α) (reason : ε) :
      Adds index (.success values) (.failure reason) [.pulled index (.failure reason)]
        (.failure reason)
  | combines (previous reason result : ε) :
      Adds index (.failure previous) (.failure reason)
        [.pulled index (.failure reason), .combined previous reason result] (.failure result)

/-- The calls to be made for operands from a number on, if the operands turn out to be these, and
what there is after them. -/
inductive Schedule :
    Nat → Outcome ε (List α) → List (Outcome ε α) → List (Made ε α) → Outcome ε (List α) → Prop
  | done (index : Nat) (sofar : Outcome ε (List α)) : Schedule index sofar [] [] sofar
  | operand {index : Nat} {sofar next last : Outcome ε (List α)} {outcome : Outcome ε α}
      {outcomes : List (Outcome ε α)} {made mades : List (Made ε α)}
      (adds : Adds index sofar outcome made next)
      (rest : Schedule (index + 1) next outcomes mades last) :
      Schedule index sofar (outcome :: outcomes) (made ++ mades) last

section Scheduled

variable {index : Nat} {sofar last : Outcome ε (List α)} {outcomes : List (Outcome ε α)}
  {made : List (Made ε α)}

theorem Schedule.pulled_eq (schedule : Schedule index sofar outcomes made last) :
    made.filterMap Made.pulled? = outcomes.zipIdx index := by
  induction schedule with
  | done => rfl
  | operand adds _ ih => cases adds <;> simp [List.filterMap_cons, ih]

/-- After a failure each further one is combined with what the call before came to. -/
theorem Schedule.combined_of_failure {previous : ε}
    (schedule : Schedule index (.failure previous) outcomes made last) :
    ∃ results, results.length = (outcomes.filterMap reason?).length ∧
      made.filterMap Made.combined? =
        (previous :: results).zip ((outcomes.filterMap reason?).zip results) ∧
      last = .failure (results.getLastD previous) := by
  generalize sofar_eq : (.failure previous : Outcome ε (List α)) = sofar at schedule
  induction schedule generalizing previous with
  | done => exact ⟨[], by simp, by simp, sofar_eq.symm⟩
  | operand adds _ ih =>
      cases adds with
      | keeps values value | fails values reason => cases sofar_eq
      | ignores _ value =>
          cases sofar_eq
          simpa [List.filterMap_cons] using ih rfl
      | combines _ reason result =>
          cases sofar_eq
          rcases ih rfl with ⟨results, length_eq, combined_eq, last_eq⟩
          refine ⟨result :: results, ?_, ?_, ?_⟩
          · simp [length_eq]
          · simp [List.filterMap_cons, combined_eq]
          · rw [List.getLastD_cons, last_eq]

/-- Before the first failure all values are kept and nothing is combined. -/
theorem Schedule.combined_of_success {values : List α}
    (schedule : Schedule index (.success values) outcomes made last) :
    (outcomes.filterMap reason? = [] →
      made.filterMap Made.combined? = [] ∧
        last = .success (values ++ outcomes.filterMap value?)) ∧
    ∀ first reasons, outcomes.filterMap reason? = first :: reasons →
      ∃ results, results.length = reasons.length ∧
        made.filterMap Made.combined? = (first :: results).zip (reasons.zip results) ∧
        last = .failure (results.getLastD first) := by
  generalize sofar_eq : (.success values : Outcome ε (List α)) = sofar at schedule
  induction schedule generalizing values with
  | done => simp [← sofar_eq]
  | operand adds rest ih =>
      cases adds with
      | ignores previous value | combines previous reason result => cases sofar_eq
      | keeps _ value =>
          cases sofar_eq
          simpa [List.filterMap_cons] using ih rfl
      | fails _ reason =>
          cases sofar_eq
          rcases rest.combined_of_failure with ⟨results, length_eq, combined_eq, last_eq⟩
          refine ⟨by simp [List.filterMap_cons], ?_⟩
          intro first reasons reasons_eq
          rw [List.filterMap_cons, reason?_failure, List.cons.injEq] at reasons_eq
          rcases reasons_eq with ⟨rfl, rfl⟩
          exact ⟨results, length_eq, by simp [List.filterMap_cons, combined_eq], last_eq⟩

/-- A reason is combined right after the operand that it came with was obtained, and the number of
calls before says which operand this is. -/
theorem Schedule.placed (schedule : Schedule index sofar outcomes made last)
    {earlier later : List (Made ε α)} {first second result : ε}
    (made_eq : made = earlier ++ .combined first second result :: later) :
    ∃ number before, earlier = before ++ [.pulled number (.failure second)] ∧
      (earlier.filterMap Made.failed?).length + (if sofar.isFailure then 1 else 0) =
        (earlier.filterMap Made.combined?).length + 2 := by
  induction schedule generalizing earlier with
  | done => simp at made_eq
  | operand adds _ ih =>
      cases adds with
      | keeps values value | ignores previous value | fails values reason =>
          rcases earlier with _ | ⟨call, earlier⟩
          · simp at made_eq
          · rcases List.cons.inj made_eq with ⟨rfl, rest_eq⟩
            rcases ih rest_eq with ⟨number, before, rfl, count⟩
            refine ⟨number, _ :: before, rfl, ?_⟩
            simpa [List.filterMap_cons, isFailure, Nat.add_right_comm] using count
      | combines previous reason combined =>
          rcases earlier with _ | ⟨call, _ | ⟨call', earlier⟩⟩
          · simp at made_eq
          · simp only [List.cons_append, List.nil_append, List.cons.injEq, Made.combined.injEq]
              at made_eq
            rcases made_eq with ⟨rfl, ⟨rfl, rfl, rfl⟩, rfl⟩
            exact ⟨_, [], rfl, by simp [List.filterMap_cons, isFailure]⟩
          · rcases List.cons.inj made_eq with ⟨rfl, tail_eq⟩
            rcases List.cons.inj tail_eq with ⟨rfl, rest_eq⟩
            rcases ih rest_eq with ⟨number, before, rfl, count⟩
            refine ⟨number, _ :: _ :: before, rfl, ?_⟩
            simp [List.filterMap_cons, isFailure] at count ⊢
            omega

/-- A chain of calls, each with the result of the call before, comes to the fold of what the calls
come to. -/
theorem getLastD_eq_foldl (c : ε → ε → ε) {previous : ε} {reasons results : List ε}
    (length_eq : results.length = reasons.length)
    (called : ∀ call ∈ (previous :: results).zip (reasons.zip results),
      call.2.2 = c call.1 call.2.1) :
    results.getLastD previous = reasons.foldl c previous := by
  induction reasons generalizing previous results with
  | nil => simp [List.length_eq_zero_iff.mp length_eq]
  | cons reason reasons ih =>
      rcases results with _ | ⟨result, results⟩
      · simp at length_eq
      · simp only [List.zip_cons_cons, List.mem_cons, forall_eq_or_imp] at called
        rcases called with ⟨result_eq, called⟩
        simp only [List.length_cons, Nat.add_right_cancel_iff] at length_eq
        rw [List.getLastD_cons, List.foldl_cons, ← result_eq]
        exact ih length_eq called

theorem Schedule.foldl_of_combined {values : List α}
    (schedule : Schedule index (.success values) outcomes made last) (c : ε → ε → ε)
    (called : ∀ first second result, .combined first second result ∈ made → result = c first second)
    {first : ε} {reasons : List ε} (reasons_eq : outcomes.filterMap reason? = first :: reasons) :
    last = .failure (reasons.foldl c first) := by
  rcases schedule.combined_of_success.2 first reasons reasons_eq with
    ⟨results, length_eq, combined_eq, rfl⟩
  congr 1
  apply getLastD_eq_foldl c length_eq
  rintro ⟨left, right, result⟩ call_mem
  rw [← combined_eq, List.mem_filterMap] at call_mem
  rcases call_mem with ⟨call, call_mem, call_eq⟩
  cases call with
  | pulled index outcome => cases call_eq
  | combined first second result' =>
      cases call_eq
      exact called _ _ _ call_mem

end Scheduled

end Deferral.Outcome

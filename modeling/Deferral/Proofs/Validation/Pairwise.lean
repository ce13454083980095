import Deferral.Outcome.Validation

/-!
# A sequence validated pair by pair

Validating a sequence of operands keeps a list of values and the reasons combined so far. Seen from
outside this is one outcome, the verdict on what was looked at, and to look at one more operand is
to validate a pair: the verdict so far and the operand. This holds with the same calls in the same
order, whatever effects these have, so it is an equation between programs of an arbitrary monad.
-/

namespace Deferral.Outcome

variable {ε α : Type} {m : Type → Type} [Monad m]

/-- Validate what there is so far together with one more operand, whose value comes last. -/
def zipAppend (combine : ε → ε → m ε) (sofar : Outcome ε (List α)) (outcome : Outcome ε α) :
    m (Outcome ε (List α)) := do
  return (← sofar.zipValidate combine outcome).map fun (values, value) => values ++ [value]

section Calls

variable (combine : ε → ε → m ε) (values : List α) (value : α) (previous reason : ε)

@[simp]
theorem verdict_empty : (Tally.empty : Tally ε α).verdict = .success [] := rfl

variable [LawfulMonad m]

@[simp]
theorem zipAppend_success_success :
    zipAppend combine (.success values) (.success value) = pure (.success (values ++ [value])) := by
  simp [zipAppend, zipValidate, map]

@[simp]
theorem zipAppend_success_failure :
    zipAppend combine (.success values) (.failure reason) = pure (.failure reason) := by
  simp [zipAppend, zipValidate, map]

@[simp]
theorem zipAppend_failure_success :
    zipAppend combine (.failure previous) (.success value) = pure (.failure previous) := by
  simp [zipAppend, zipValidate, map]

@[simp]
theorem zipAppend_failure_failure :
    (zipAppend combine (.failure previous) (.failure reason) : m (Outcome ε (List α))) =
      .failure <$> combine previous reason := by
  simp [zipAppend, zipValidate, map]

end Calls

variable [LawfulMonad m]

/-- To take an operand into account is to validate it with the verdict so far. -/
theorem verdict_add (combine : ε → ε → m ε) (tally : Tally ε α) (outcome : Outcome ε α) :
    Tally.verdict <$> tally.add combine outcome = tally.verdict.zipAppend combine outcome := by
  rcases tally with ⟨values, _ | previous⟩
  · cases outcome with
    | success value => simp [Tally.add, Tally.verdict]
    | failure reason => simp [Tally.add, Tally.verdict, accumulate]
  · cases outcome with
    | success value => simp [Tally.add, Tally.verdict]
    | failure reason => simp [Tally.add, Tally.verdict, accumulate]

theorem verdict_addAll (combine : ε → ε → m ε) (pulls : List (m (Outcome ε α)))
    (tally : Tally ε α) :
    Tally.verdict <$> tally.addAll combine pulls =
      pulls.foldlM (fun sofar pull => pull >>= sofar.zipAppend combine) tally.verdict := by
  induction pulls generalizing tally with
  | nil => simp [Tally.addAll]
  | cons pull pulls ih =>
      simp only [Tally.addAll, List.foldlM_cons, map_bind, bind_assoc]
      apply bind_congr
      intro outcome
      simp only [ih, ← verdict_add, bind_map_left]

theorem validateAll_eq_foldlM (combine : ε → ε → m ε) (pulls : List (m (Outcome ε α))) :
    validateAll combine pulls =
      pulls.foldlM (fun sofar pull => pull >>= sofar.zipAppend combine) (.success []) := by
  have verdicts := verdict_addAll combine pulls Tally.empty
  rw [verdict_empty] at verdicts
  rw [← verdicts, validateAll, map_eq_pure_bind]

theorem validateAll_pure (combine : ε → ε → m ε) (outcomes : List (Outcome ε α)) :
    validateAll combine (outcomes.map pure) =
      outcomes.foldlM (zipAppend combine) (.success []) := by
  simp [validateAll_eq_foldlM, List.foldlM_map]

end Deferral.Outcome

import Deferral.Proofs.Concurrent.Blind

/-!
# Futures that agree

Where each of two futures follows the other, they agree: in worlds that are the same both polls
answer alike or neither answers, and what they leave to be polled again agrees too.
-/

namespace Deferral

variable {σ V ρ α β γ δ : Type} {same : σ → σ → Prop}

/-- Neither of two calls has an answer, or both panic for the same reason, or both return. -/
inductive Agreed (same : σ → σ → Prop) (related : α → β → Prop) :
    Option (Except Panic α × σ) → Option (Except Panic β × σ) → Prop
  | hangs : Agreed same related none none
  | panicked {reason : Panic} {after after' : σ} (worlds : same after after') :
      Agreed same related (some (.error reason, after)) (some (.error reason, after'))
  | returned {value : α} {value' : β} {after after' : σ} (worlds : same after after')
      (values : related value value') :
      Agreed same related (some (.ok value, after)) (some (.ok value', after'))

namespace Agreed

variable {related weaker : α → β → Prop} {further : γ → δ → Prop}
  {answer : Option (Except Panic α × σ)} {answer' : Option (Except Panic β × σ)}

theorem mono (agreed : Agreed same related answer answer')
    (weaken : ∀ value value', related value value' → weaker value value') :
    Agreed same weaker answer answer' := by
  cases agreed with
  | hangs => exact .hangs
  | panicked worlds => exact .panicked worlds
  | returned worlds values => exact .returned worlds (weaken _ _ values)

theorem bind {call : Call σ α} {call' : Call σ β} {next : α → Call σ γ} {next' : β → Call σ δ}
    {before before' : σ} (calls : Agreed same related (call before) (call' before'))
    (nexts : ∀ value value' after after', related value value' → same after after' →
      Agreed same further (next value after) (next' value' after')) :
    Agreed same further ((call >>= next) before) ((call' >>= next') before') := by
  generalize called : call before = answer at calls
  generalize called' : call' before' = answer' at calls
  cases calls with
  | hangs =>
      rw [Call.bind_of_none called, Call.bind_of_none called']
      exact .hangs
  | panicked worlds =>
      rw [Call.bind_of_error called, Call.bind_of_error called']
      exact .panicked worlds
  | returned worlds values =>
      rw [Call.bind_of_ok called, Call.bind_of_ok called']
      exact nexts _ _ _ _ values worlds

theorem of_followed {back : β → α → Prop} (follows : FollowedBy same related answer answer')
    (follows' : FollowedBy same back answer' answer) :
    Agreed same (fun value value' => related value value' ∧ back value' value) answer answer' := by
  rcases answer with _ | found
  · rcases answer' with _ | found'
    · exact .hangs
    · cases follows' found' rfl
  · cases follows found rfl with
    | panicked worlds => exact .panicked worlds
    | returned worlds values =>
        cases follows' _ rfl with
        | returned _ back => exact .returned worlds ⟨values, back⟩

theorem symm (equivalence : Equivalence same) (agreed : Agreed same related answer answer') :
    Agreed same (fun value' value => related value value') answer' answer := by
  cases agreed with
  | hangs => exact .hangs
  | panicked worlds => exact .panicked (equivalence.symm worlds)
  | returned worlds values => exact .returned (equivalence.symm worlds) values

theorem trans {further : β → γ → Prop} {answer'' : Option (Except Panic γ × σ)}
    (equivalence : Equivalence same) (agreed : Agreed same related answer answer')
    (agreed' : Agreed same further answer' answer'') :
    Agreed same (fun value value'' => ∃ value', related value value' ∧ further value' value'')
      answer answer'' := by
  cases agreed with
  | hangs =>
      cases agreed'
      exact .hangs
  | panicked worlds =>
      cases agreed' with
      | panicked worlds' => exact .panicked (equivalence.trans worlds worlds')
  | returned worlds values =>
      cases agreed' with
      | returned worlds' values' =>
          exact .returned (equivalence.trans worlds worlds') ⟨_, values, values'⟩

/-- What is returned is remembered to be what was returned. -/
theorem returns (agreed : Agreed same related answer answer') :
    Agreed same
      (fun value value' => related value value' ∧ ∃ after, answer = some (.ok value, after))
      answer answer' := by
  cases agreed with
  | hangs => exact .hangs
  | panicked worlds => exact .panicked worlds
  | returned worlds values => exact .returned worlds ⟨values, _, rfl⟩

end Agreed

theorem PollAlike.and {related back : Future σ V ρ → Future σ V ρ → Prop}
    {polled polled' : Poll V (Future σ V ρ)} (polls : PollAlike related polled polled')
    (backs : PollAlike back polled' polled) :
    PollAlike (fun rest rest' => related rest rest' ∧ back rest' rest) polled polled' := by
  cases polls with
  | ready value => exact .ready value
  | pending rests =>
      cases backs with
      | pending backs => exact .pending ⟨rests, backs⟩

variable [Host σ V] [Equations ρ σ (Future σ V ρ) V]

/-- Nobody can tell two futures apart by polling them in worlds that are the same. -/
def FuturesAgree (same : σ → σ → Prop) (future future' : Future σ V ρ) : Prop :=
  ∃ related : Future σ V ρ → Future σ V ρ → Prop,
    (∀ ⦃first second⦄, related first second → ∀ ⦃before before'⦄, same before before' →
      Agreed same (PollAlike related) (first.poll before) (second.poll before')) ∧
    related future future'

namespace FuturesAgree

variable {future future' : Future σ V ρ} {before before' : σ}

theorem polls (agree : FuturesAgree same future future') (worlds : same before before') :
    Agreed same (PollAlike (FuturesAgree same)) (future.poll before) (future'.poll before') := by
  rcases agree with ⟨related, closed, rel⟩
  apply (closed rel worlds).mono
  intro polled polled' alike
  exact alike.mono fun _ _ rests => ⟨related, closed, rests⟩

theorem of_follow (symm : ∀ {before before'}, same before before' → same before' before)
    (follows : FuturesFollow same future future') (follows' : FuturesFollow same future' future) :
    FuturesAgree same future future' := by
  refine ⟨fun first second => FuturesFollow same first second ∧ FuturesFollow same second first,
    ?_, follows, follows'⟩
  intro first second both before before' worlds
  have followed := FuturesFollow.kept both.1 worlds
  have followed' := FuturesFollow.kept both.2 (symm worlds)
  apply (Agreed.of_followed followed followed').mono
  intro polled polled' alike
  exact alike.1.and alike.2

end FuturesAgree

/-- The run of a blind graph agrees with itself. -/
theorem AsyncGraph.Blind.agrees {graph : AsyncGraph σ V ρ} (blind : graph.Blind same)
    (symm : ∀ {before before'}, same before before' → same before' before)
    (emits : KeptByEvents same) :
    FuturesAgree same (Future.ofGraph graph) (.ofGraph graph) :=
  .of_follow symm (blind.runs emits) (blind.runs emits)

end Deferral

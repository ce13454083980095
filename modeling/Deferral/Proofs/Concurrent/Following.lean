import Deferral.Proofs.Lockstep.Future

/-!
# What a run cannot tell

Worlds may be the same in some sense: they are equal, or they differ only in something that is out
of reach, or nothing at all is asked of them. A graph is blind to what such a sense leaves open when
its leaves and its continuations do the same in worlds that are the same, and leave worlds that are
the same again. A continuation may answer with a leaf that was made for the world it was made in, if
that leaf yields the same value there and then, as a leaf does that takes what was just left for it.

Nor can the run of a blind graph tell such worlds apart, wherever it was suspended in between.
-/

namespace Deferral

variable {σ V ρ α β γ δ : Type}

/-- An answer that is like one that was found: the same panic, or a related value. -/
inductive Follows (same : σ → σ → Prop) (related : α → σ → β → σ → Prop) :
    Except Panic α × σ → Option (Except Panic β × σ) → Prop
  | panicked {reason : Panic} {after after' : σ} (worlds : same after after') :
      Follows same related (.error reason, after) (some (.error reason, after'))
  | returned {value : α} {value' : β} {after after' : σ} (worlds : same after after')
      (values : related value after value' after') :
      Follows same related (.ok value, after) (some (.ok value', after'))

/-- The second answer is like the first one, if there is a first one. -/
def Followed (same : σ → σ → Prop) (related : α → σ → β → σ → Prop)
    (answer : Option (Except Panic α × σ)) (answer' : Option (Except Panic β × σ)) : Prop :=
  ∀ found, answer = some found → Follows same related found answer'

/-- The same for values that are related whatever the worlds are. -/
abbrev FollowedBy (same : σ → σ → Prop) (related : α → β → Prop) :
    Option (Except Panic α × σ) → Option (Except Panic β × σ) → Prop :=
  Followed same fun value _ value' _ => related value value'

/-- In worlds that are the same, the second call answers like the first one. -/
def CallsFollow (same : σ → σ → Prop) (related : α → β → Prop) (call : Call σ α)
    (call' : Call σ β) : Prop :=
  ∀ ⦃before before'⦄, same before before' → FollowedBy same related (call before) (call' before')

section Followed

variable {same : σ → σ → Prop} {related : α → σ → β → σ → Prop} {further : γ → σ → δ → σ → Prop}

theorem Followed.refl {related : α → σ → α → σ → Prop} (answer : Option (Except Panic α × σ))
    (values : ∀ value after, related value after value after) :
    Followed Eq related answer answer := by
  rintro ⟨reason | value, after⟩ rfl
  · exact .panicked rfl
  · exact .returned rfl (values value after)

theorem Followed.mono {weaker : α → σ → β → σ → Prop} {answer : Option (Except Panic α × σ)}
    {answer' : Option (Except Panic β × σ)} (followed : Followed same related answer answer')
    (weaken : ∀ value after value' after', related value after value' after' →
      weaker value after value' after') : Followed same weaker answer answer' := by
  intro found answered
  cases followed found answered with
  | panicked worlds => exact .panicked worlds
  | returned worlds values => exact .returned worlds (weaken _ _ _ _ values)

theorem Followed.pure {value : α} {value' : β} {before before' : σ} (worlds : same before before')
    (values : related value before value' before') :
    Followed same related ((Pure.pure value : Call σ α) before)
      ((Pure.pure value' : Call σ β) before') := by
  intro found answered
  cases answered
  exact .returned worlds values

theorem Followed.bind {call : Call σ α} {call' : Call σ β} {next : α → Call σ γ}
    {next' : β → Call σ δ} {before before' : σ}
    (calls : Followed same related (call before) (call' before'))
    (nexts : ∀ value after value' after', same after after' → related value after value' after' →
      Followed same further (next value after) (next' value' after')) :
    Followed same further ((call >>= next) before) ((call' >>= next') before') := by
  rintro ⟨ending, last⟩ answered
  rcases Call.bind_eq_some_iff.mp answered with
    ⟨reason, found, rfl⟩ | ⟨value, after, found, answered⟩
  · have follows := calls _ found
    generalize called : call' before' = answer' at follows
    cases follows with
    | panicked worlds =>
        rw [Call.bind_of_error called]
        exact .panicked worlds
  · have follows := calls _ found
    generalize called : call' before' = answer' at follows
    cases follows with
    | returned worlds values =>
        rw [Call.bind_of_ok called]
        exact nexts _ _ _ _ worlds values _ answered

end Followed

theorem PollAlike.refl (polled : Poll V (Future σ V ρ)) : PollAlike Eq polled polled := by
  cases polled with
  | ready value => exact .ready value
  | pending wake rest => exact .pending rfl

variable [Host σ V] [Equations ρ σ (Future σ V ρ) V]

/-- In worlds that are the same, related futures answer alike and leave related futures. -/
def KeptByPolls (same : σ → σ → Prop) (related : Future σ V ρ → Future σ V ρ → Prop) : Prop :=
  ∀ ⦃future future'⦄, related future future' →
    CallsFollow same (PollAlike related) future.poll future'.poll

theorem keptByPolls_eq : KeptByPolls Eq (Eq : Future σ V ρ → Future σ V ρ → Prop) := by
  rintro future _ rfl before _ rfl
  exact .refl _ fun polled _ => .refl polled

/-- The second future answers like the first one, poll after poll. -/
def FuturesFollow (same : σ → σ → Prop) (future future' : Future σ V ρ) : Prop :=
  ∃ related, KeptByPolls same related ∧ related future future'

namespace FuturesFollow

variable {same : σ → σ → Prop} {future future' : Future σ V ρ}

theorem kept : KeptByPolls same (FuturesFollow same : Future σ V ρ → Future σ V ρ → Prop) := by
  rintro future future' ⟨related, closed, rel⟩ before before' worlds
  refine (closed rel worlds).mono ?_
  exact fun _ _ _ _ polls => polls.mono fun _ _ rests => ⟨related, closed, rests⟩

/-- A relation that polls keep, or leave for futures that follow, holds only for such. -/
theorem of_closed (related : Future σ V ρ → Future σ V ρ → Prop)
    (closed : ∀ ⦃first second⦄, related first second → CallsFollow same
      (PollAlike fun rest rest' => related rest rest' ∨ FuturesFollow same rest rest')
      first.poll second.poll)
    (rel : related future future') : FuturesFollow same future future' := by
  refine ⟨fun first second => related first second ∨ FuturesFollow same first second, ?_, .inl rel⟩
  rintro first second (rel | follows) before before' worlds
  · exact closed rel worlds
  · refine (kept follows worlds).mono ?_
    exact fun _ _ _ _ polls => polls.mono fun _ _ rests => .inr rests

theorem of_poll
    (polls : CallsFollow same (PollAlike (FuturesFollow same)) future.poll future'.poll) :
    FuturesFollow same future future' := by
  refine of_closed (fun first second => first = future ∧ second = future') ?_ ⟨rfl, rfl⟩
  rintro _ _ ⟨rfl, rfl⟩ before before' worlds
  refine (polls worlds).mono ?_
  exact fun _ _ _ _ polled => polled.mono fun _ _ rests => .inr rests

theorem ready (value : V) : FuturesFollow same (.ready value : Future σ V ρ) (.ready value) := by
  refine of_poll fun before before' worlds => ?_
  rw [Future.poll_ready]
  exact .pure worlds (.ready value)

theorem pause (times : Nat) (follows : FuturesFollow same future future') :
    FuturesFollow same (.pause times future) (.pause times future') := by
  induction times with
  | zero =>
      refine of_poll fun before before' worlds => ?_
      rw [Future.poll_pause_zero, Future.poll_pause_zero]
      exact kept follows worlds
  | succ times ih =>
      refine of_poll fun before before' worlds => ?_
      rw [Future.poll_pause_succ, Future.poll_pause_succ]
      exact .pure worlds (.pending ih)

theorem after {call call' : Call σ (Future σ V ρ)}
    (calls : CallsFollow same (FuturesFollow same) call call') :
    FuturesFollow same (.after call) (.after call') := by
  refine of_poll fun before before' worlds => ?_
  rw [Future.poll_after, Future.poll_after]
  exact (calls worlds).bind fun _ _ _ _ worlds follows => kept follows worlds

end FuturesFollow

end Deferral

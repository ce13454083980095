import Deferral.Host
import Deferral.Proofs.Call

/-!
# Calls that cannot be told apart

Two sessions are the same to a user when they differ in their places at most. Two calls are alike
when in any two such sessions both diverge, or both panic with the same reason, or both return, and
the sessions they leave are the same again. What they return need not be equal: two calls that build
graphs return graphs that are related in a way that the caller knows.

Every panic is one of those that are `raised`. So to show that a panic never occurs is to show that
calls are alike for a `raised` that excludes it.
-/

namespace Deferral

variable {ω V α β γ δ : Type}

namespace Session

/-- Sessions that differ in their places at most. -/
structure Same (first second : Session ω V) : Prop where
  user_eq : first.user = second.user
  clock_eq : first.clock = second.clock
  events_eq : first.events = second.events
  allowance_eq : first.allowance = second.allowance

namespace Same

variable {first second : Session ω V}

theorem refl (session : Session ω V) : Same session session := ⟨rfl, rfl, rfl, rfl⟩

theorem symm (same : Same first second) : Same second first :=
  ⟨same.user_eq.symm, same.clock_eq.symm, same.events_eq.symm, same.allowance_eq.symm⟩

theorem trans {third : Session ω V} (same : Same first second) (same' : Same second third) :
    Same first third :=
  ⟨same.user_eq.trans same'.user_eq, same.clock_eq.trans same'.clock_eq,
    same.events_eq.trans same'.events_eq, same.allowance_eq.trans same'.allowance_eq⟩

theorem emit (same : Same first second) (event : Event) :
    Same (Host.emit event first) (Host.emit event second) :=
  ⟨same.user_eq, same.clock_eq, congrArg (Array.push · event) same.events_eq, same.allowance_eq⟩

theorem waitUntil (same : Same first second) (moment : Nat) :
    Same (Host.waitUntil moment first) (Host.waitUntil moment second) :=
  ⟨same.user_eq, congrArg (max · moment) same.clock_eq, same.events_eq, same.allowance_eq⟩

theorem beginTurn (same : Same first second) (allowance : Option Nat) :
    Same (Host.beginTurn allowance first) (Host.beginTurn allowance second) :=
  ⟨same.user_eq, same.clock_eq, same.events_eq, rfl⟩

theorem deadline_eq (same : Same first second) (milliseconds : Nat) :
    Host.deadline milliseconds first = Host.deadline milliseconds second :=
  congrArg (· + min milliseconds longestWait) same.clock_eq

theorem endWait (same : Same first second) (moment : Nat) :
    (Host.endWait moment first).1 = (Host.endWait moment second).1 ∧
      Same (Host.endWait moment first).2 (Host.endWait moment second).2 := by
  rcases first with ⟨user, clock, events, places, allowance⟩
  rcases second with ⟨user', clock', events', places', allowance'⟩
  rcases same with ⟨rfl, rfl, rfl, rfl⟩
  simp only [Host.endWait, Session.endWait]
  split
  · exact ⟨rfl, rfl, rfl, rfl, rfl⟩
  · rcases allowance with _ | _ | left <;> exact ⟨rfl, rfl, rfl, rfl, rfl⟩

/-- Leaving something behind is not noticed. -/
theorem leave (same : Same first second) (value : V) : Same (Host.leave value first).2 second :=
  ⟨same.user_eq, same.clock_eq, same.events_eq, same.allowance_eq⟩

end Same

end Session

/-- Two answers between which nobody can tell, for values that are related in their worlds. -/
inductive AnswersAlike (raised : Panic → Prop)
    (related : α → Session ω V → β → Session ω V → Prop) :
    Option (Except Panic α × Session ω V) → Option (Except Panic β × Session ω V) → Prop
  | diverged : AnswersAlike raised related none none
  | panicked {reason : Panic} {after after' : Session ω V} (reason_raised : raised reason)
      (same : after.Same after') :
      AnswersAlike raised related (some (.error reason, after)) (some (.error reason, after'))
  | returned {value : α} {value' : β} {after after' : Session ω V}
      (values : related value after value' after') :
      AnswersAlike raised related (some (.ok value, after)) (some (.ok value', after'))

/-- Values that are related whatever the worlds are, in worlds that are the same. -/
def Alongside (related : α → β → Prop) (value : α) (after : Session ω V) (value' : β)
    (after' : Session ω V) : Prop :=
  related value value' ∧ after.Same after'

namespace AnswersAlike

variable {raised : Panic → Prop} {related : α → Session ω V → β → Session ω V → Prop}
  {answer : Option (Except Panic α × Session ω V)}
  {answer' : Option (Except Panic β × Session ω V)}

theorem symm (alike : AnswersAlike raised related answer answer') :
    AnswersAlike raised (fun value' after' value after => related value after value' after')
      answer' answer := by
  cases alike with
  | diverged => exact .diverged
  | panicked reason_raised same => exact .panicked reason_raised same.symm
  | returned values => exact .returned values

theorem mono {weaker : α → Session ω V → β → Session ω V → Prop}
    (alike : AnswersAlike raised related answer answer')
    (weaken : ∀ value after value' after', related value after value' after' →
      weaker value after value' after') :
    AnswersAlike raised weaker answer answer' := by
  cases alike with
  | diverged => exact .diverged
  | panicked reason_raised same => exact .panicked reason_raised same
  | returned values => exact .returned (weaken _ _ _ _ values)

theorem of_error {reason : Panic} {after : Session ω V}
    (alike : AnswersAlike raised related (some (.error reason, after)) answer') :
    ∃ after', answer' = some (.error reason, after') ∧ raised reason ∧ after.Same after' := by
  cases alike with
  | panicked reason_raised same => exact ⟨_, rfl, reason_raised, same⟩

theorem of_ok {value : α} {after : Session ω V}
    (alike : AnswersAlike raised related (some (.ok value, after)) answer') :
    ∃ value' after', answer' = some (.ok value', after') ∧ related value after value' after' := by
  cases alike with
  | returned values => exact ⟨_, _, rfl, values⟩

theorem of_none (alike : AnswersAlike raised related none answer') : answer' = none := by
  cases alike
  rfl

theorem bind {further : γ → Session ω V → δ → Session ω V → Prop}
    {call : Call (Session ω V) α} {call' : Call (Session ω V) β}
    {next : α → Call (Session ω V) γ} {next' : β → Call (Session ω V) δ}
    {before before' : Session ω V}
    (calls : AnswersAlike raised related (call before) (call' before'))
    (nexts : ∀ value after value' after', related value after value' after' →
      AnswersAlike raised further (next value after) (next' value' after')) :
    AnswersAlike raised further ((call >>= next) before) ((call' >>= next') before') := by
  rcases found : call before with _ | ⟨reason | value, after⟩
  · rw [found] at calls
    rw [Call.bind_of_none found, Call.bind_of_none calls.of_none]
    exact .diverged
  · rw [found] at calls
    rcases calls.of_error with ⟨after', found', reason_raised, same⟩
    rw [Call.bind_of_error found, Call.bind_of_error found']
    exact .panicked reason_raised same
  · rw [found] at calls
    rcases calls.of_ok with ⟨value', after', found', values⟩
    rw [Call.bind_of_ok found, Call.bind_of_ok found']
    exact nexts _ _ _ _ values

/-- Two answers that cannot be told from a third one cannot be told from each other. -/
theorem through {plain : Option (Except Panic γ × Session ω V)} {related : α → γ → Prop}
    {related' : β → γ → Prop} (alike : AnswersAlike raised (Alongside related) answer plain)
    (alike' : AnswersAlike raised (Alongside related') answer' plain) :
    AnswersAlike raised
      (Alongside fun value value' => ∃ middle, related value middle ∧ related' value' middle)
      answer answer' := by
  cases alike with
  | diverged =>
      cases alike'
      exact .diverged
  | panicked reason_raised same =>
      cases alike' with
      | panicked _ same' => exact .panicked reason_raised (same.trans same'.symm)
  | returned values =>
      cases alike' with
      | returned values' =>
          exact .returned ⟨⟨_, values.1, values'.1⟩, values.2.trans values'.2.symm⟩

end AnswersAlike

/-- The first answer, if there is one, is like the second. -/
def Matched (raised : Panic → Prop) (related : α → Session ω V → β → Session ω V → Prop)
    (answer : Option (Except Panic α × Session ω V))
    (answer' : Option (Except Panic β × Session ω V)) : Prop :=
  ∀ found, answer = some found → AnswersAlike raised related (some found) answer'

namespace Matched

variable {raised : Panic → Prop} {related : α → Session ω V → β → Session ω V → Prop}
  {further : γ → Session ω V → δ → Session ω V → Prop}

theorem of_alike {answer : Option (Except Panic α × Session ω V)}
    {answer' : Option (Except Panic β × Session ω V)}
    (alike : AnswersAlike raised related answer answer') :
    Matched raised related answer answer' := by
  rintro found rfl
  exact alike

theorem bind {call : Call (Session ω V) α} {call' : Call (Session ω V) β}
    {next : α → Call (Session ω V) γ} {next' : β → Call (Session ω V) δ}
    {before before' : Session ω V}
    (calls : Matched raised related (call before) (call' before'))
    (nexts : ∀ value after value' after', related value after value' after' →
      Matched raised further (next value after) (next' value' after')) :
    Matched raised further ((call >>= next) before) ((call' >>= next') before') := by
  rintro ⟨ending, last⟩ answered
  rcases Call.bind_eq_some_iff.mp answered with
    ⟨reason, found, rfl⟩ | ⟨value, after, found, answered⟩
  · rcases (calls _ found).of_error with ⟨after', found', reason_raised, same⟩
    rw [Call.bind_of_error found']
    exact .panicked reason_raised same
  · rcases (calls _ found).of_ok with ⟨value', after', found', values⟩
    rw [Call.bind_of_ok found']
    exact nexts _ _ _ _ values _ answered

end Matched

/-- Answers are alike if each of them is matched by the other. -/
theorem AnswersAlike.of_matched {raised : Panic → Prop}
    {related : α → Session ω V → β → Session ω V → Prop}
    {answer : Option (Except Panic α × Session ω V)}
    {answer' : Option (Except Panic β × Session ω V)}
    (matched : Matched raised related answer answer')
    (matched' : Matched raised (fun value' after' value after => related value after value' after')
      answer' answer) :
    AnswersAlike raised related answer answer' := by
  rcases answer with _ | found
  · rcases answer' with _ | found'
    · exact .diverged
    · have alike := matched' found' rfl
      rcases found' with ⟨_ | _, _⟩ <;> cases alike
  · exact matched found rfl

/-- The same panic, or values that are related. -/
inductive EndingsAlike (raised : Panic → Prop) (related : α → β → Prop) :
    Except Panic α → Except Panic β → Prop
  | panicked {reason : Panic} (reason_raised : raised reason) :
      EndingsAlike raised related (.error reason) (.error reason)
  | returned {value : α} {value' : β} (values : related value value') :
      EndingsAlike raised related (.ok value) (.ok value')

namespace Call

/-- Calls between which nobody can tell. -/
def Alike (raised : Panic → Prop) (related : α → β → Prop) (call : Call (Session ω V) α)
    (call' : Call (Session ω V) β) : Prop :=
  ∀ ⦃before before' : Session ω V⦄, before.Same before' →
    AnswersAlike raised (Alongside related) (call before) (call' before')

namespace Alike

variable {raised : Panic → Prop} {related : α → β → Prop} {further : γ → δ → Prop}
  {call : Call (Session ω V) α} {call' : Call (Session ω V) β}

theorem symm (alike : Alike raised related call call') :
    Alike raised (fun value' value => related value value') call' call := fun _ _ same =>
  (alike same.symm).symm.mono fun _ _ _ _ values => ⟨values.1, values.2.symm⟩

theorem mono {weaker : α → β → Prop} (alike : Alike raised related call call')
    (weaken : ∀ value value', related value value' → weaker value value') :
    Alike raised weaker call call' := fun _ _ same =>
  (alike same).mono fun _ _ _ _ values => ⟨weaken _ _ values.1, values.2⟩

theorem pure {value : α} {value' : β} (values : related value value') :
    Alike raised related (Pure.pure value : Call (Session ω V) α) (Pure.pure value') :=
  fun _ _ same => .returned ⟨values, same⟩

theorem panic {message : String} (message_raised : raised (.text message)) :
    Alike raised related (Call.panic message : Call (Session ω V) α) (Call.panic message) :=
  fun _ _ same => .panicked message_raised same

theorem bind {next : α → Call (Session ω V) γ} {next' : β → Call (Session ω V) δ}
    (calls : Alike raised related call call')
    (nexts : ∀ value value', related value value' →
      Alike raised further (next value) (next' value')) :
    Alike raised further (call >>= next) (call' >>= next') := fun _ _ same =>
  (calls same).bind fun value _ value' _ values => nexts value value' values.1 values.2

theorem map {function : α → γ} {function' : β → δ} (calls : Alike raised related call call')
    (functions : ∀ value value', related value value' →
      further (function value) (function' value')) :
    Alike raised further (function <$> call) (function' <$> call') := by
  rw [map_eq_pure_bind, map_eq_pure_bind]
  exact calls.bind fun value value' values => .pure (functions value value' values)

theorem change {step : Session ω V → α × Session ω V} {step' : Session ω V → β × Session ω V}
    (steps : ∀ before before', before.Same before' →
      related (step before).1 (step' before').1 ∧ (step before).2.Same (step' before').2) :
    Alike raised related (Call.change step) (Call.change step') := fun before before' same =>
  .returned (steps before before' same)

theorem read {look : Session ω V → α}
    (looks : ∀ before before', before.Same before' → look before = look before') :
    Alike raised Eq (Call.read look) (Call.read look) := fun before before' same =>
  .returned ⟨looks before before' same, same⟩

theorem attempt (calls : Alike raised related call call') :
    Alike raised (EndingsAlike raised related) (Call.attempt call) (Call.attempt call') := by
  intro before before' same
  have answers := calls same
  rw [attempt_apply, attempt_apply]
  generalize call before = answer at answers
  generalize call' before' = answer' at answers
  cases answers with
  | diverged => exact .diverged
  | panicked reason_raised after_same => exact .returned ⟨.panicked reason_raised, after_same⟩
  | returned values => exact .returned ⟨.returned values.1, values.2⟩

theorem reserve (overflow_raised : raised (.text "capacity overflow")) (bytes count : Nat) :
    Alike raised Eq (Call.reserve bytes count : Call (Session ω V) Unit)
      (Call.reserve bytes count) := by
  unfold Call.reserve
  split
  · exact .pure rfl
  · exact .panic overflow_raised

theorem report (event : Event) :
    Alike raised Eq (Host.report event : Call (Session ω V) Unit) (Host.report event) :=
  change fun _ _ same => ⟨rfl, same.emit event⟩

theorem withUser (step : ω → α × ω) :
    Alike raised Eq (Session.withUser step : Call (Session ω V) α) (Session.withUser step) :=
  change fun before before' same => by
    rcases same with ⟨user_eq, clock_eq, events_eq, allowance_eq⟩
    simp only [user_eq, true_and]
    exact ⟨rfl, clock_eq, events_eq, allowance_eq⟩

end Alike

end Call

end Deferral

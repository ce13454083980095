import Deferral.Proofs.Future.Polls
import Deferral.Proofs.Lockstep.Graph

/-!
# Futures in lockstep

Two futures are alike when some relation holds between them that every poll keeps: both polls are
alike, and what is left to be done is related again. Whatever builds futures from futures that are
alike builds futures that are alike, and so do the runs of asynchronous graphs in lockstep.
-/

namespace Deferral

variable {ω V ρ ρ' F F' : Type}

/-- Two answers to a poll: the same value, or the same occasion for the next poll. -/
inductive PollAlike (related : F → F' → Prop) : Poll V F → Poll V F' → Prop
  | ready (value : V) : PollAlike related (.ready value) (.ready value)
  | pending {wake : Wake} {rest : F} {rest' : F'} (rests : related rest rest') :
      PollAlike related (.pending wake rest) (.pending wake rest')

theorem PollAlike.mono {related weaker : F → F' → Prop} {polled : Poll V F} {polled' : Poll V F'}
    (polls : PollAlike related polled polled')
    (weaken : ∀ rest rest', related rest rest' → weaker rest rest') :
    PollAlike weaker polled polled' := by
  cases polls with
  | ready value => exact .ready value
  | pending rests => exact .pending (weaken _ _ rests)

theorem PollAlike.symm {related : F → F' → Prop} {polled : Poll V F} {polled' : Poll V F'}
    (polls : PollAlike related polled polled') : PollAlike (flip related) polled' polled := by
  cases polls with
  | ready value => exact .ready value
  | pending rests => exact .pending rests

variable [Equations ρ (Session ω V) (Future (Session ω V) V ρ) V]
  [Equations ρ' (Session ω V) (Future (Session ω V) V ρ') V]

/-- Futures between which nobody can tell by polling. -/
def FuturesAlike (raised : Panic → Prop) (future : Future (Session ω V) V ρ)
    (future' : Future (Session ω V) V ρ') : Prop :=
  ∃ related : Future (Session ω V) V ρ → Future (Session ω V) V ρ' → Prop,
    related future future' ∧ ∀ ⦃first second⦄, related first second →
      first.poll.Alike raised (PollAlike related) second.poll

namespace FuturesAlike

variable {raised : Panic → Prop} {future : Future (Session ω V) V ρ}
  {future' : Future (Session ω V) V ρ'}

theorem poll (futures : FuturesAlike raised future future') :
    future.poll.Alike raised (PollAlike (FuturesAlike raised)) future'.poll := by
  rcases futures with ⟨related, rel, closed⟩
  exact (closed rel).mono fun _ _ polls => polls.mono fun _ _ rests => ⟨related, rests, closed⟩

theorem symm (futures : FuturesAlike raised future future') :
    FuturesAlike raised future' future := by
  rcases futures with ⟨related, rel, closed⟩
  exact ⟨flip related, rel, fun _ _ rel => (closed rel).symm.mono fun _ _ polls => polls.symm⟩

/-- A relation that polls keep, or leave for futures that are alike, holds for futures that are
alike only. -/
theorem of_closed (related : Future (Session ω V) V ρ → Future (Session ω V) V ρ' → Prop)
    (closed : ∀ ⦃first second⦄, related first second → first.poll.Alike raised
      (PollAlike fun rest rest' => related rest rest' ∨ FuturesAlike raised rest rest')
      second.poll)
    (rel : related future future') : FuturesAlike raised future future' := by
  refine ⟨fun first second => related first second ∨ FuturesAlike raised first second,
    .inl rel, ?_⟩
  rintro first second (rel | futures)
  · exact closed rel
  · exact futures.poll.mono fun _ _ polls => polls.mono fun _ _ rests => .inr rests

theorem of_poll (polls : future.poll.Alike raised (PollAlike (FuturesAlike raised)) future'.poll) :
    FuturesAlike raised future future' := by
  refine of_closed (fun first second => first = future ∧ second = future') ?_ ⟨rfl, rfl⟩
  rintro _ _ ⟨rfl, rfl⟩
  exact polls.mono fun _ _ polled => polled.mono fun _ _ rests => .inr rests

theorem ready (value : V) :
    FuturesAlike raised (.ready value : Future (Session ω V) V ρ)
      (.ready value : Future (Session ω V) V ρ') := by
  refine of_poll ?_
  rw [Future.poll_eq_pollWith, Future.poll_eq_pollWith]
  exact .pure (.ready value)

theorem pause (times : Nat) (futures : FuturesAlike raised future future') :
    FuturesAlike raised (.pause times future) (.pause times future') := by
  induction times with
  | zero =>
      refine of_poll ?_
      rw [Future.poll_eq_pollWith, Future.poll_eq_pollWith]
      exact futures.poll
  | succ times ih =>
      refine of_poll ?_
      rw [Future.poll_eq_pollWith, Future.poll_eq_pollWith]
      exact .pure (.pending ih)

theorem sleep (deadline : Nat) (value : V) :
    FuturesAlike raised (.sleep deadline value : Future (Session ω V) V ρ)
      (.sleep deadline value : Future (Session ω V) V ρ') := by
  refine of_closed (fun first second =>
    first = .sleep deadline value ∧ second = .sleep deadline value) ?_ ⟨rfl, rfl⟩
  rintro _ _ ⟨rfl, rfl⟩
  rw [Future.poll_eq_pollWith, Future.poll_eq_pollWith]
  refine Call.Alike.bind (?_ : Call.Alike raised Eq _ _) ?_
  · exact .change fun _ _ same => same.endWait deadline
  · rintro ended _ rfl
    cases ended with
    | true => exact .pure (.ready value)
    | false => exact .pure (.pending (.inl ⟨rfl, rfl⟩))

theorem after {call : Call (Session ω V) (Future (Session ω V) V ρ)}
    {call' : Call (Session ω V) (Future (Session ω V) V ρ')}
    (calls : call.Alike raised (FuturesAlike raised) call') :
    FuturesAlike raised (.after call) (.after call') := by
  refine of_poll ?_
  rw [Future.poll_eq_pollWith, Future.poll_eq_pollWith]
  exact calls.bind fun _ _ futures => futures.poll

end FuturesAlike

end Deferral

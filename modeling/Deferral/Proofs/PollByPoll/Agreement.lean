import Deferral.Proofs.Concurrent.Schedule
import Deferral.Proofs.Future.Polls

/-!
# Futures that agree poll by poll

Two futures agree if nobody who polls them in the same worlds can tell them apart, however often and
in whatever worlds: each poll of one has the same effects as that of the other, and either both have
to wait for the same thing, or both are ready with the same value, or both panic for the same
reason, or neither returns.

One thing is left open. A run that is over says so, and names the largest number of continuations
that ever waited. This number depends on how the graph is built and not only on what it does.
-/

namespace Deferral

variable {σ V ρ : Type} [Host σ V]

/-- Two polls have the same answer and leave the same world, and what they leave to be polled again
is related. -/
inductive SameAnswer (related : Future σ V ρ → Future σ V ρ → Prop) :
    Option (Except Panic (Poll V (Future σ V ρ)) × σ) →
      Option (Except Panic (Poll V (Future σ V ρ)) × σ) → Prop
  | hangs : SameAnswer related none none
  | panicked (reason : Panic) (after : σ) :
      SameAnswer related (some (.error reason, after)) (some (.error reason, after))
  | pending {rest rest' : Future σ V ρ} (wake : Wake) (rests : related rest rest') (after : σ) :
      SameAnswer related (some (.ok (.pending wake rest), after))
        (some (.ok (.pending wake rest'), after))
  /-- The last thing that both did is to report that the run is over. -/
  | ready (value : V) (peak peak' : Nat) (after : σ) :
      SameAnswer related (some (.ok (.ready value), Host.emit (.asyncFinished peak) after))
        (some (.ok (.ready value), Host.emit (.asyncFinished peak') after))

theorem SameAnswer.mono {related weaker : Future σ V ρ → Future σ V ρ → Prop}
    {answer answer' : Option (Except Panic (Poll V (Future σ V ρ)) × σ)}
    (weaken : ∀ future future', related future future' → weaker future future')
    (same : SameAnswer related answer answer') : SameAnswer weaker answer answer' := by
  cases same with
  | hangs => exact .hangs
  | panicked reason after => exact .panicked reason after
  | pending wake rests after => exact .pending wake (weaken _ _ rests) after
  | ready value peak peak' after => exact .ready value peak peak' after

/-- Every answer that the first call has is had by the second one too. -/
def Answered (related : Future σ V ρ → Future σ V ρ → Prop)
    (call call' : Call σ (Poll V (Future σ V ρ))) : Prop :=
  ∀ before answer, call before = some answer → SameAnswer related (some answer) (call' before)

namespace Answered

variable {related : Future σ V ρ → Future σ V ρ → Prop}

theorem bind {α : Type} {call call' : Call σ α} {next next' : α → Call σ (Poll V (Future σ V ρ))}
    (below : Call.Below call call') (nexts : ∀ value, Answered related (next value) (next' value)) :
    Answered related (call >>= next) (call' >>= next') := by
  rintro before ⟨ending, after⟩ answered
  rcases Call.bind_eq_some_iff.mp answered with
    ⟨reason, panicked, rfl⟩ | ⟨value, between, called, answered⟩
  · rw [Call.bind_of_error (below _ _ panicked)]
    exact .panicked reason after
  · rw [Call.bind_of_ok (below _ _ called)]
    exact nexts value between _ answered

/-- If each of two calls has the answers of the other, then both have the same. -/
theorem sameAnswer {call call' : Call σ (Poll V (Future σ V ρ))}
    (answered : Answered related call call')
    (answered' : Answered related call' call) (before : σ) :
    SameAnswer related (call before) (call' before) := by
  rcases found : call before with _ | answer
  · rcases found' : call' before with _ | answer'
    · exact .hangs
    · have same := answered' before answer' found'
      rw [found] at same
      cases same
  · exact answered before answer found

end Answered

namespace Future

variable [Equations ρ σ (Future σ V ρ) V]

/-- What is left of a future that was polled in these worlds, one after the other, and had to wait
each time. -/
def leftAfter : List σ → Future σ V ρ → Option (Future σ V ρ)
  | [], future => some future
  | world :: worlds, future => do
    let (ending, _) ← future.poll world
    let rest ← left? ending
    rest.leftAfter worlds

/-- After any polls in the same worlds both futures are left or neither is, and the next poll in the
same world has the same answer. -/
def PollByPoll (first second : Future σ V ρ) : Prop :=
  ∀ worlds world, Option.Rel
    (fun rest rest' => SameAnswer (fun _ _ => True) (rest.poll world) (rest'.poll world))
    (first.leftAfter worlds) (second.leftAfter worlds)

/-- A relation that is kept by polls shows that futures agree, if their first polls do. -/
theorem PollByPoll.of_kept {related : Future σ V ρ → Future σ V ρ → Prop}
    (kept : ∀ future future', related future future' → ∀ world,
      SameAnswer related (future.poll world) (future'.poll world)) {first second : Future σ V ρ}
    (start : ∀ world, SameAnswer related (first.poll world) (second.poll world)) :
    PollByPoll first second := by
  intro worlds world
  induction worlds generalizing first second with
  | nil =>
      apply Option.Rel.some
      exact (start world).mono fun _ _ _ => trivial
  | cons polled worlds ih =>
      have same := start polled
      simp only [leftAfter]
      revert same
      generalize first.poll polled = answer
      generalize second.poll polled = answer'
      rintro (_ | ⟨reason, after⟩ | ⟨wake, rests, after⟩ | ⟨value, peak, peak', after⟩)
      · exact .none
      · exact .none
      · exact ih (kept _ _ rests)
      · exact .none

end Future

end Deferral

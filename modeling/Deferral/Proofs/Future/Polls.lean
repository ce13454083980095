import Deferral.Future.Basic
import Deferral.Proofs.Call

/-!
# Polls of futures

`Future.pollWith` is what a poll does with a future when it polls other futures in some given way. A
poll is the least solution of `Future.poll_eq_pollWith`, so what is kept by `Future.pollWith` holds
of every answer of a poll. That is how polls are reasoned about wherever one poll may visit any
number of nodes, each with a leaf that is polled in turn.
-/

namespace Deferral.Future

variable {σ V ρ : Type} [Host σ V] [Equations ρ σ (Future σ V ρ) V]

/-- What a poll does, with other futures polled in the given way. -/
def pollWith (poll : Future σ V ρ → Call σ (Poll V (Future σ V ρ))) :
    Future σ V ρ → Call σ (Poll V (Future σ V ρ))
  | .ready value => return .ready value
  | .pause 0 next => poll next
  | .pause (times + 1) next => return .pending .soon (.pause times next)
  | .sleep deadline value => do
    if ← Call.change (Host.endWait deadline) then
      return .ready value
    else
      return .pending (.at deadline) (.sleep deadline value)
  | .begin call => do
    let future ← call
    poll future
  | .chain first next => do
    match ← poll first with
    | .ready value =>
      let future ← next value
      poll future
    | .pending wake rest => return .pending wake (.chain rest next)
  | .visit node pending =>
    match node.shape with
    | .leaf produce => do
      let leaf ← produce
      poll (.await leaf pending)
    | .bind predecessor resume => poll (.visit predecessor (pending.push resume))
  | .await leaf pending => do
    match ← poll leaf with
    | .pending wake rest => return .pending wake (.await rest pending)
    | .ready value =>
      match pending.pop? with
      | some (resume, pending) =>
        let node ← resume value
        poll (.visit node pending)
      | none =>
        Host.report (.asyncFinished pending.peak)
        return .ready value

theorem poll_eq_pollWith (future : Future σ V ρ) : future.poll = pollWith poll future :=
  poll.eq_def future

section Constructors

variable {node predecessor : AsyncGraph σ V ρ} {produce : Call σ (Future σ V ρ)}
  {resume : Graph.Continuation σ (Future σ V ρ) V ρ}

theorem poll_ready (value : V) : (ready value : Future σ V ρ).poll = pure (.ready value) :=
  poll_eq_pollWith _

theorem poll_pause_zero (next : Future σ V ρ) : (pause 0 next).poll = next.poll :=
  poll_eq_pollWith _

theorem poll_pause_succ (times : Nat) (next : Future σ V ρ) :
    (pause (times + 1) next).poll = pure (.pending .soon (.pause times next)) :=
  poll_eq_pollWith _

theorem poll_after (call : Call σ (Future σ V ρ)) : (after call).poll = call >>= poll :=
  poll_eq_pollWith _

theorem poll_visit_of_leaf (shape_eq : node.shape = .leaf produce)
    (pending : Pending (Graph.Continuation σ (Future σ V ρ) V ρ)) :
    (visit node pending).poll = produce >>= fun leaf => (await leaf pending).poll := by
  rw [poll_eq_pollWith]
  simp only [pollWith, shape_eq]

theorem poll_visit_of_bind (shape_eq : node.shape = .bind predecessor resume)
    (pending : Pending (Graph.Continuation σ (Future σ V ρ) V ρ)) :
    (visit node pending).poll = (visit predecessor (pending.push resume)).poll := by
  rw [poll_eq_pollWith]
  simp only [pollWith, shape_eq]

end Constructors

/-- Where less is polled, less is answered. -/
theorem pollWith_below {first second : Future σ V ρ → Call σ (Poll V (Future σ V ρ))}
    (below : ∀ future, Call.Below (first future) (second future)) (future : Future σ V ρ) :
    Call.Below (pollWith first future) (pollWith second future) := by
  cases future with
  | ready value => exact .refl _
  | pause times next =>
      cases times with
      | zero => exact below next
      | succ times => exact .refl _
  | sleep deadline value => exact .refl _
  | begin call => exact (Call.Below.refl call).bind below
  | chain first next =>
      refine (below first).bind fun polled => ?_
      cases polled with
      | ready value => exact (Call.Below.refl (next value)).bind below
      | pending wake rest => exact .refl _
  | visit node pending =>
      simp only [pollWith]
      rcases node.shape with produce | ⟨predecessor, resume⟩
      · exact (Call.Below.refl produce).bind fun leaf => below _
      · exact below _
  | await leaf pending =>
      refine (below leaf).bind fun polled => ?_
      cases polled with
      | pending wake rest => exact .refl _
      | ready value =>
          rcases pending.pop? with _ | ⟨resume, rest⟩
          · exact .refl _
          · exact (Call.Below.refl (resume value)).bind fun node => below _

/-- What is kept by `Future.pollWith` holds of every answer of a poll. -/
theorem poll_induction
    (holds : Future σ V ρ → σ → Except Panic (Poll V (Future σ V ρ)) × σ → Prop)
    (step : ∀ approx : Future σ V ρ → Call σ (Poll V (Future σ V ρ)),
      (∀ future, Call.Below (approx future) future.poll) →
      (∀ future before answer, approx future before = some answer → holds future before answer) →
      ∀ future before answer, pollWith approx future before = some answer →
        holds future before answer)
    (future : Future σ V ρ) (before : σ) (answer : Except Panic (Poll V (Future σ V ρ)) × σ)
    (polled : future.poll before = some answer) : holds future before answer := by
  refine (poll.fixpoint_induct (fun approx => ∀ future before answer,
    approx future before = some answer →
      future.poll before = some answer ∧ holds future before answer)
    ?_ ?_ future before answer polled).2
  · exact fun _ _ => Call.answers_of_chain
      fun _ _ => ⟨fun order => by cases order <;> simp, by rintro (rfl | rfl) <;> constructor⟩
  · intro approx ih future before answer answered
    have below : ∀ future, Call.Below (approx future) future.poll :=
      fun future before answer polled => (ih future before answer polled).1
    have stepped : pollWith approx future before = some answer := answered
    refine ⟨?_, step approx below (fun _ _ _ polled => (ih _ _ _ polled).2) _ _ _ stepped⟩
    rw [poll_eq_pollWith]
    exact pollWith_below below future before answer stepped

end Deferral.Future

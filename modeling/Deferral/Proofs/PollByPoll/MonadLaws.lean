import Deferral.Proofs.PollByPoll.Agreement

/-!
# The monad laws, poll by poll

Two runs of which the laws say that they are the same have different continuations waiting at every
poll that finds a leaf unfinished. `SameWaiting` says how the continuations of one may be grouped
otherwise than those of the other: two that wait one after the other may be composed, and one that
only hands its value on may be left out. `Rearranged` futures are runs at the same node or leaf with
such continuations. One of them may have to take a few steps more before something happens, and
these are `Silent`: nobody's function is called on the way.
-/

namespace Deferral

variable {σ V ρ : Type}

/-- Continuations that come to the same when one after the other is applied. -/
inductive SameWaiting : List (Graph.Continuation σ (Future σ V ρ) V ρ) →
    List (Graph.Continuation σ (Future σ V ρ) V ρ) → Prop
  | none : SameWaiting [] []
  | both {waiting waiting' : List (Graph.Continuation σ (Future σ V ρ) V ρ)}
      (resume : Graph.Continuation σ (Future σ V ρ) V ρ) (below : SameWaiting waiting waiting') :
      SameWaiting (resume :: waiting) (resume :: waiting')
  | composedRight {waiting waiting' : List (Graph.Continuation σ (Future σ V ρ) V ρ)}
      (function further : Graph.Continuation σ (Future σ V ρ) V ρ)
      (below : SameWaiting waiting waiting') :
      SameWaiting (function :: further :: waiting)
        ((fun value => do return (← function value).flatMap further) :: waiting')
  | composedLeft {waiting waiting' : List (Graph.Continuation σ (Future σ V ρ) V ρ)}
      (function further : Graph.Continuation σ (Future σ V ρ) V ρ)
      (below : SameWaiting waiting waiting') :
      SameWaiting ((fun value => do return (← function value).flatMap further) :: waiting)
        (function :: further :: waiting')
  | returnedLeft {waiting waiting' : List (Graph.Continuation σ (Future σ V ρ) V ρ)}
      (below : SameWaiting waiting waiting') :
      SameWaiting ((fun value => do return Graph.of value) :: waiting) waiting'
  | returnedRight {waiting waiting' : List (Graph.Continuation σ (Future σ V ρ) V ρ)}
      (below : SameWaiting waiting waiting') :
      SameWaiting waiting ((fun value => do return Graph.of value) :: waiting')

theorem SameWaiting.symm {waiting waiting' : List (Graph.Continuation σ (Future σ V ρ) V ρ)}
    (same : SameWaiting waiting waiting') : SameWaiting waiting' waiting := by
  induction same with
  | none => exact .none
  | both resume _ ih => exact .both resume ih
  | composedRight function further _ ih => exact .composedLeft function further ih
  | composedLeft function further _ ih => exact .composedRight function further ih
  | returnedLeft _ ih => exact .returnedRight ih
  | returnedRight _ ih => exact .returnedLeft ih

namespace Future

variable [Equations ρ σ (Future σ V ρ) V]

/-- A step of a run that calls nobody's function. -/
inductive Silent : Future σ V ρ → Future σ V ρ → Prop
  | descends {node predecessor : AsyncGraph σ V ρ}
      {resume : Graph.Continuation σ (Future σ V ρ) V ρ}
      (shape_eq : node.shape = .bind predecessor resume)
      (pending : Pending (Graph.Continuation σ (Future σ V ρ) V ρ)) :
      Silent (.visit node pending) (.visit predecessor (pending.push resume))
  | yields (value : V) (pending : Pending (Graph.Continuation σ (Future σ V ρ) V ρ)) :
      Silent (.visit (Graph.of value) pending) (.await (.ready value) pending)

/-- Runs at the same place, up to silent steps, with continuations that come to the same. -/
inductive Rearranged : Future σ V ρ → Future σ V ρ → Prop
  | visit (node : AsyncGraph σ V ρ)
      {pending pending' : Pending (Graph.Continuation σ (Future σ V ρ) V ρ)}
      (same : SameWaiting pending.waiting pending'.waiting) :
      Rearranged (.visit node pending) (.visit node pending')
  | await (leaf : Future σ V ρ)
      {pending pending' : Pending (Graph.Continuation σ (Future σ V ρ) V ρ)}
      (same : SameWaiting pending.waiting pending'.waiting) :
      Rearranged (.await leaf pending) (.await leaf pending')
  | behind {future next other : Future σ V ρ} (silent : Silent future next)
      (rearranged : Rearranged next other) : Rearranged future other
  | ahead {future other next : Future σ V ρ} (silent : Silent other next)
      (rearranged : Rearranged future next) : Rearranged future other

theorem Rearranged.symm {future other : Future σ V ρ} (rearranged : Rearranged future other) :
    Rearranged other future := by
  induction rearranged with
  | visit node same => exact .visit node same.symm
  | await leaf same => exact .await leaf same.symm
  | behind silent _ ih => exact .ahead silent ih
  | ahead silent _ ih => exact .behind silent ih

variable [Host σ V]

/-- Hand a value to the continuation that waits for it, or be ready with it. -/
def hand (poll : Future σ V ρ → Call σ (Poll V (Future σ V ρ))) (value : V)
    (pending : Pending (Graph.Continuation σ (Future σ V ρ) V ρ)) :
    Call σ (Poll V (Future σ V ρ)) :=
  match pending.pop? with
  | some (resume, pending) => do
    let node ← resume value
    poll (.visit node pending)
  | none => do
    Host.report (.asyncFinished pending.peak)
    return .ready value

theorem pollWith_await (poll : Future σ V ρ → Call σ (Poll V (Future σ V ρ))) (leaf : Future σ V ρ)
    (pending : Pending (Graph.Continuation σ (Future σ V ρ) V ρ)) :
    pollWith poll (.await leaf pending) = poll leaf >>= fun polled =>
      match polled with
      | .pending wake rest => return .pending wake (.await rest pending)
      | .ready value => hand poll value pending := by
  simp only [pollWith, hand]
  apply bind_congr
  intro polled
  cases polled with
  | pending wake rest => rfl
  | ready value => rcases pending.pop? with _ | ⟨resume, rest⟩ <;> rfl

theorem poll_await_ready (value : V) (pending : Pending (Graph.Continuation σ (Future σ V ρ) V ρ)) :
    (await (.ready value) pending).poll = hand poll value pending := by
  rw [poll_eq_pollWith, pollWith_await, poll_ready, pure_bind]

theorem Silent.pollWith_eq {future next : Future σ V ρ} (silent : Silent future next)
    (poll : Future σ V ρ → Call σ (Poll V (Future σ V ρ))) : pollWith poll future = poll next := by
  cases silent with
  | descends shape_eq pending => simp only [pollWith, shape_eq]
  | yields value pending =>
      simp only [pollWith, Graph.of, Graph.fromThunk, map_pure, Graph.shape_leaf, pure_bind]
      rfl

theorem Silent.poll_eq {future next : Future σ V ρ} (silent : Silent future next) :
    future.poll = next.poll := by
  rw [poll_eq_pollWith, silent.pollWith_eq]

theorem hand_returned (value : V) (waiting : List (Graph.Continuation σ (Future σ V ρ) V ρ))
    (depth peak : Nat) :
    hand poll value ⟨(fun value => do return Graph.of value) :: waiting, depth, peak⟩ =
      hand poll value ⟨waiting, depth - 1, peak⟩ := by
  simp only [hand, Pending.pop?, pure_bind]
  rw [(Silent.yields value _).poll_eq, poll_await_ready]
  rfl

section Kept

variable {approx : Future σ V ρ → Call σ (Poll V (Future σ V ρ))}

theorem answered_hand
    (answered : ∀ future other, Rearranged future other →
      Answered Rearranged (approx future) other.poll)
    (value : V) {pending pending' : Pending (Graph.Continuation σ (Future σ V ρ) V ρ)}
    (same : SameWaiting pending.waiting pending'.waiting) :
    Answered Rearranged (hand approx value pending) (hand poll value pending') := by
  rcases pending with ⟨waiting, depth, peak⟩
  rcases pending' with ⟨waiting', depth', peak'⟩
  simp only at same
  induction same generalizing depth depth' with
  | none =>
      rintro before answer ⟨⟩
      exact .ready value peak peak' before
  | both resume below _ =>
      apply Answered.bind (.refl (resume value))
      intro node
      exact answered _ _ (.visit node below)
  | composedRight function further below _ =>
      simp only [hand, Pending.pop?, bind_assoc, pure_bind]
      apply Answered.bind (.refl (function value))
      intro node
      exact answered _ _ (.ahead (.descends (Graph.shape_flatMap node further) _)
        (.visit node (.both further below)))
  | composedLeft function further below _ =>
      simp only [hand, Pending.pop?, bind_assoc, pure_bind]
      apply Answered.bind (.refl (function value))
      intro node
      exact answered _ _ (.behind (.descends (Graph.shape_flatMap node further) _)
        (.visit node (.both further below)))
  -- On the left one more node has to be visited, and a step of `approx` is there for it; on the
  -- right this is a part of the same poll.
  | returnedLeft below _ =>
      rw [← poll_await_ready]
      simp only [hand, Pending.pop?, pure_bind]
      exact answered _ _ (.behind (.yields value _) (.await (.ready value) below))
  | returnedRight _ ih =>
      rw [hand_returned]
      exact ih depth _

theorem answered_pollWith
    (below : ∀ future, Call.Below (approx future) future.poll)
    (answered : ∀ future other, Rearranged future other →
      Answered Rearranged (approx future) other.poll)
    {future other : Future σ V ρ} (rearranged : Rearranged future other) :
    Answered Rearranged (pollWith approx future) other.poll := by
  -- A step on the left is taken by `approx`; the steps that the right has to catch up with are not,
  -- so they are taken by induction.
  induction rearranged with
  | visit node same =>
      rcases shape_eq : node.shape with produce | ⟨predecessor, resume⟩
      · rw [poll_visit_of_leaf shape_eq]
        simp only [pollWith, shape_eq]
        apply Answered.bind (.refl produce)
        intro leaf
        exact answered _ _ (.await leaf same)
      · rw [poll_visit_of_bind shape_eq]
        simp only [pollWith, shape_eq]
        exact answered _ _ (.visit predecessor (.both resume same))
  | await leaf same =>
      rw [poll_eq_pollWith, pollWith_await, pollWith_await]
      apply Answered.bind (below leaf)
      intro polled
      cases polled with
      | pending wake rest =>
          rintro before answer ⟨⟩
          exact .pending wake (.await rest same) before
      | ready value => exact answered_hand answered value same
  | behind silent rearranged _ =>
      rw [silent.pollWith_eq]
      exact answered _ _ rearranged
  | ahead silent _ ih =>
      rw [silent.poll_eq]
      exact ih

end Kept

theorem Rearranged.answered {future other : Future σ V ρ} (rearranged : Rearranged future other) :
    Answered Rearranged future.poll other.poll := by
  intro before answer polled
  refine poll_induction
    (fun future before answer => ∀ other, Rearranged future other →
      SameAnswer Rearranged (some answer) (other.poll before))
    ?_ future before answer polled other rearranged
  intro approx below ih future before answer polled other rearranged
  apply answered_pollWith below _ rearranged before answer polled
  intro future other rearranged before answer polled
  exact ih future before answer polled other rearranged

theorem Rearranged.poll {future other : Future σ V ρ} (rearranged : Rearranged future other)
    (world : σ) : SameAnswer Rearranged (future.poll world) (other.poll world) :=
  rearranged.answered.sameAnswer rearranged.symm.answered world

theorem Rearranged.pollByPoll {future other : Future σ V ρ} (rearranged : Rearranged future other) :
    PollByPoll future other :=
  .of_kept (fun _ _ => Rearranged.poll) rearranged.poll

theorem poll_flatMap_of (value : V) (function : Graph.Continuation σ (Future σ V ρ) V ρ) :
    (ofGraph ((Graph.of value).flatMap function)).poll =
      function value >>= fun node => (visit node ⟨[], 0, 1⟩).poll := by
  rw [ofGraph, (Silent.descends (Graph.shape_flatMap _ _) _).poll_eq,
    (Silent.yields value _).poll_eq, poll_await_ready]
  rfl

end Future

variable [Host σ V] [Equations ρ σ (Future σ V ρ) V]

/-- The monad laws hold poll by poll. To feed a value to a function is to call the function inside
the first poll and to go on with the run of what it answers. To feed the value of a graph to one
that only yields it again makes no difference, and neither does it in which way two functions are
nested. -/
theorem AsyncGraph.monad_laws (graph : AsyncGraph σ V ρ)
    (function further : Graph.Continuation σ (Future σ V ρ) V ρ) (given : V) :
    Future.PollByPoll (.ofGraph ((Graph.of given).flatMap function))
      (.after do return .ofGraph (← function given)) ∧
    Future.PollByPoll (.ofGraph (graph.flatMap fun value => return Graph.of value))
      (.ofGraph graph) ∧
    Future.PollByPoll (.ofGraph ((graph.flatMap function).flatMap further))
      (.ofGraph (graph.flatMap fun value => do return (← function value).flatMap further)) := by
  refine ⟨?_, ?_, ?_⟩
  · apply Future.PollByPoll.of_kept fun _ _ => Future.Rearranged.poll
    intro world
    rw [Future.poll_flatMap_of, Future.poll_after, bind_assoc]
    simp only [pure_bind]
    apply Answered.sameAnswer
    · apply Answered.bind (.refl (function given))
      intro node
      exact (Future.Rearranged.visit node .none).answered
    · apply Answered.bind (.refl (function given))
      intro node
      exact (Future.Rearranged.visit node .none).answered
  · apply Future.Rearranged.pollByPoll
    exact .behind (.descends (Graph.shape_flatMap _ _) _) (.visit graph (.returnedLeft .none))
  · apply Future.Rearranged.pollByPoll
    apply Future.Rearranged.behind (.descends (Graph.shape_flatMap _ _) _)
    apply Future.Rearranged.behind (.descends (Graph.shape_flatMap _ _) _)
    apply Future.Rearranged.ahead (.descends (Graph.shape_flatMap _ _) _)
    exact .visit graph (.composedRight function further .none)

end Deferral

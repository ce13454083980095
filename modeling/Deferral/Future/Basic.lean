import Deferral.Graph.Map
import Deferral.Run.Pending

/-!
# Futures

A future is what has to be done before a value is there, as data. Polling one does as much as can be
done now; it then either has the value or is left as another future, to be polled again.

An asynchronous graph is a graph whose leaves produce futures, so futures and graphs refer to each
other: the run of such a graph is itself a future. `Future.visit` is a run about to visit a node and
`Future.await` is a run in the middle of a leaf; both carry the continuations that wait.
-/

namespace Deferral

/-- What remains to be done for a value of type `V`. -/
inductive Future (σ V ρ : Type) : Type where
  | ready (value : V)
  /-- Let everyone else go first, so many times. -/
  | pause (times : Nat) (next : Future σ V ρ)
  /-- Wait for a moment of the clock. -/
  | sleep (deadline : Nat) (value : V)
  /-- Make a call, whose answer is what remains then. -/
  | begin (call : σ → Option (Except Panic (Future σ V ρ) × σ))
  /-- Finish one future and hand its value on. -/
  | chain (first : Future σ V ρ) (next : V → σ → Option (Except Panic (Future σ V ρ) × σ))
  /-- Run a graph whose node is to be visited next. -/
  | visit (node : Graph σ (Future σ V ρ) V ρ)
      (pending : Pending (V → σ → Option (Except Panic (Graph σ (Future σ V ρ) V ρ) × σ)))
  /-- Run a graph whose current leaf is not finished. -/
  | await (leaf : Future σ V ρ)
      (pending : Pending (V → σ → Option (Except Panic (Graph σ (Future σ V ρ) V ρ) × σ)))

/-- A graph whose leaves produce futures. -/
abbrev AsyncGraph (σ V ρ : Type) := Graph σ (Future σ V ρ) V ρ

/-- A future that is there at once is one with nothing left to do. -/
instance (σ V ρ : Type) : Immediate V (Future σ V ρ) where
  ready := .ready

/-- When it makes sense to poll an unfinished future again. -/
inductive Wake where
  | soon
  | at (moment : Nat)
  deriving Repr, DecidableEq

/-- The earlier of two wakes. One that may come at any time comes before every moment of the clock.
-/
def Wake.earlier : Wake → Wake → Wake
  | .at first, .at second => .at (min first second)
  | _, _ => .soon

/-- What a poll comes to: a value, or when to poll again and what to poll then. -/
inductive Poll (V F : Type) where
  | ready (value : V)
  | pending (wake : Wake) (next : F)

namespace Future

variable {σ V ρ : Type}

/-- Make a call and go on with the future it answers. -/
def after (call : Call σ (Future σ V ρ)) : Future σ V ρ := .begin call

/-- Finish a future and go on with the one that its value is handed to. -/
def followedBy (first : Future σ V ρ) (next : V → Call σ (Future σ V ρ)) : Future σ V ρ :=
  .chain first next

/-- The run of an asynchronous graph. Nothing happens before the first poll. -/
def ofGraph (graph : AsyncGraph σ V ρ) : Future σ V ρ :=
  .visit graph .empty

/-- Do as much as can be done now. A run visits node after node until a leaf has to wait, so the
whole of a chain of leaves that are ready is done in one poll, and it needs no more native stack
than a single visit. -/
def poll [Host σ V] [Equations ρ σ (Future σ V ρ) V] :
    Future σ V ρ → Call σ (Poll V (Future σ V ρ))
  | .ready value => return .ready value
  | .pause 0 next => next |>.poll
  | .pause (times + 1) next => return .pending .soon (.pause times next)
  | .sleep deadline value => do
    if ← Call.change (Host.endWait deadline) then
      return .ready value
    else
      return .pending (.at deadline) (.sleep deadline value)
  | .begin call => do
    let future ← call
    future |>.poll
  | .chain first next => do
    match ← first |>.poll with
    | .ready value =>
      let future ← next value
      future |>.poll
    | .pending wake rest => return .pending wake (.chain rest next)
  | .visit node pending =>
    match node.shape with
    | .leaf produce => do
      let leaf ← produce
      Future.await leaf pending |>.poll
    | .bind predecessor resume => Future.visit predecessor (pending.push resume) |>.poll
  | .await leaf pending => do
    match ← leaf |>.poll with
    | .pending wake rest => return .pending wake (.await rest pending)
    | .ready value =>
      match pending.pop? with
      | some (resume, pending) =>
        let node ← resume value
        Future.visit node pending |>.poll
      | none =>
        Host.report (.asyncFinished pending.peak)
        return .ready value
partial_fixpoint

end Future

end Deferral

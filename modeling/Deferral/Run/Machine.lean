import Deferral.Graph.Basic
import Deferral.Run.Pending
import Deferral.Run.Report

/-!
# The machine that runs a graph

A run is a loop over single visits. Visiting a bind makes its continuation wait and goes down to the
predecessor; visiting a leaf produces a value and hands it to the continuation that waited last, or
ends the run when none waits. The stack of waiting continuations lives in the data, so the loop
needs no stack of its own, however the graph is nested.

`Machine.visit` is one visit. `Machine.drive` goes on until a value is there, and does not return
when there never is one. `Machine.driveWithin` goes on for at most a number of visits and always
returns when the calls it makes do: the limit is looked at before a visit, so a run whose last visit
is the last one allowed still finishes.
-/

namespace Deferral

/-- The state between two visits of a run. -/
structure Machine (σ V ρ : Type) where
  current : Graph σ V V ρ
  /-- The continuations that wait for a value. -/
  pending : Pending (Graph.Continuation σ V V ρ)
  steps : Nat

/-- What a visit leads to: the next one, or the end of the run. -/
inductive Visited (σ V ρ : Type) where
  | moved (machine : Machine σ V ρ)
  | finished (value : V) (stats : RunStats)

/-- How a bounded run ends. -/
inductive Halt (V : Type) where
  | finished (value : V) (stats : RunStats)
  | limitReached (stats : RunStats) (pending : Nat)

namespace Machine

variable {σ V ρ : Type}

/-- The machine before the first visit of a run. -/
def start (graph : Graph σ V V ρ) : Machine σ V ρ where
  current := graph
  pending := .empty
  steps := 0

/-- The bytes that a waiting continuation takes. -/
def continuationBytes : Nat := 16

/-- Room for so many continuations can be asked for. -/
def RoomFor (capacity : UInt64) : Prop := continuationBytes * capacity.toNat ≤ mostBytes

instance (capacity : UInt64) : Decidable (RoomFor capacity) :=
  inferInstanceAs (Decidable (_ ≤ _))

/-- The machine before the first visit, after room was taken for a number of continuations. -/
def provided (graph : Graph σ V V ρ) (capacity : UInt64) : Call σ (Machine σ V ρ) := do
  let pending ← Pending.withCapacity continuationBytes capacity.toNat
  return { start graph with pending }

theorem provided_of_room {capacity : UInt64} (room : RoomFor capacity) (graph : Graph σ V V ρ) :
    provided graph capacity = pure (start graph) := by
  rw [provided, Pending.withCapacity_of_le room, pure_bind]
  rfl

theorem provided_of_no_room {capacity : UInt64} (no_room : ¬ RoomFor capacity)
    (graph : Graph σ V V ρ) :
    provided graph capacity = Call.panic "capacity overflow" := by
  rw [provided, Pending.withCapacity_of_lt (Nat.not_le.mp no_room)]
  rfl

/-- The measurements so far. -/
def stats (machine : Machine σ V ρ) : RunStats where
  steps := machine.steps
  peakStackDepth := machine.pending.peak

variable [Equations ρ σ V V]

/-- Visit the current node. -/
def visit (machine : Machine σ V ρ) : Call σ (Visited σ V ρ) :=
  match machine.current.shape with
  | .leaf produce => do
    let value ← produce
    match machine.pending.pop? with
    | none => return .finished value ⟨machine.steps + 1, machine.pending.peak⟩
    | some (resume, pending) => return .moved ⟨← resume value, pending, machine.steps + 1⟩
  | .bind predecessor resume =>
    return .moved ⟨predecessor, machine.pending.push resume, machine.steps + 1⟩

/-- Visit after visit until there is a value. -/
def drive (machine : Machine σ V ρ) : Call σ (V × RunStats) := do
  match ← machine.visit with
  | .moved next => next |>.drive
  | .finished value stats => return (value, stats)
partial_fixpoint

/-- At most so many visits, one after the other. -/
def driveWithin : Nat → Machine σ V ρ → Call σ (Halt V)
  | 0, machine => return .limitReached machine.stats machine.pending.depth
  | allowed + 1, machine => do
    match ← machine.visit with
    | .moved next => next.driveWithin allowed
    | .finished value stats => return .finished value stats

end Machine

end Deferral

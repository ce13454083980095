import Deferral.Future.Complete
import Deferral.Typed.Deferred

/-!
# Promises

A promise is a future for a value of a known type: what a leaf of an asynchronous computation
produces, and what a run of one is to whoever completes it.
-/

namespace Deferral

/-- A future whose value is of a type. -/
structure Promise {ι : Type} (Base : ι → Type) (σ ρ : Type) (t : Ty ι) where
  future : Future σ (Tagged Base) ρ

namespace Promise

variable {ι σ ρ : Type} {Base : ι → Type} {s t : Ty ι}

/-- What is said about a value of another type than was promised. -/
def mismatch : String := "Type mismatch between async graph node and continuation"

/-- Make a call when polled for the first time; its value is there then. -/
def after (call : Call σ (t.Value Base)) : Promise Base σ ρ t :=
  ⟨.after do return .ready (← Deferred.tagged call)⟩

/-- Let everyone else go first, so many times. -/
def pause (times : Nat) (next : Promise Base σ ρ t) : Promise Base σ ρ t :=
  ⟨.pause times next.future⟩

variable [DecidableEq ι]

/-- The value of a future at the type that is looked for. -/
def received (value : Tagged Base) : Call σ (t.Value Base) :=
  value.expect mismatch t

/-- Apply a function to the value as soon as it is there. -/
def map (promise : Promise Base σ ρ s) (function : s.Value Base → Call σ (t.Value Base)) :
    Promise Base σ ρ t :=
  ⟨promise.future.followedBy fun value => do
    let value ← received value
    return .ready (← Deferred.tagged (function value))⟩

variable [Host σ (Tagged Base)] [Equations ρ σ (Future σ (Tagged Base) ρ) (Tagged Base)]

/-- Poll until there is a value, and take it at its type. -/
def complete (promise : Promise Base σ ρ t) : Call σ (t.Value Base) := do
  received (← promise.future.complete)

/-- Poll until the value is there or so many milliseconds have passed. -/
def completeWithin (milliseconds : Nat) (promise : Promise Base σ ρ t) :
    Call σ (Option (t.Value Base)) := do
  match ← promise.future.completeWithin milliseconds with
  | some value => return some (← received value)
  | none => return none

/-- Poll at most so many times while the time stands still. A value comes with the number of the
poll that had it. -/
def pollTimes (promise : Promise Base σ ρ t) (allowed : Nat) :
    Call σ (Option (t.Value Base × Nat)) := do
  match ← promise.future.pollTimes allowed 0 with
  | some (value, made) => return some (← received value, made)
  | none => return none

/-- Run promises together to the end. -/
def completeAll (promises : List (Promise Base σ ρ t)) : Call σ (List (t.Value Base)) := do
  let values ← Future.completeAll (promises.map (·.future))
  values.mapM received

end Promise

end Deferral

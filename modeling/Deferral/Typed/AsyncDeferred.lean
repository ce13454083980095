import Deferral.Future.AsyncGraph
import Deferral.Typed.Promise

/-!
# Asynchronous computations with a type

An `AsyncDeferred` is an asynchronous graph that yields values of one known type, with the
combinators of `Deferred` and those that wait. Its leaves produce promises and so does a run of it.
-/

namespace Deferral

instance {ι : Type} {Base : ι → Type} : Unital (Tagged Base) where
  unit := ⟨.unit, ()⟩

/-- An asynchronous computation of a value of a type. -/
structure AsyncDeferred {ι : Type} (Base : ι → Type) (σ ρ : Type) (t : Ty ι) where
  graph : AsyncGraph σ (Tagged Base) ρ

namespace AsyncDeferred

variable {ι σ ρ : Type} {Base : ι → Type} {s t : Ty ι}

/-- The computation that calls a function for its value. -/
def fromThunk (produce : Call σ (t.Value Base)) : AsyncDeferred Base σ ρ t :=
  ⟨.fromThunk (Deferred.tagged produce)⟩

/-- The computation with a given value. -/
def of (value : t.Value Base) : AsyncDeferred Base σ ρ t :=
  fromThunk (pure value)

/-- The future of a promise that a call makes. -/
def promised (action : Call σ (Promise Base σ ρ t)) : Call σ (Future σ (Tagged Base) ρ) := do
  return (← action).future

/-- Await a new promise at every visit. -/
def fromAsync (action : Call σ (Promise Base σ ρ t)) : AsyncDeferred Base σ ρ t :=
  ⟨.fromAsync (promised action)⟩

/-- A run. Nothing happens before it is polled. -/
def run (computation : AsyncDeferred Base σ ρ t) : Promise Base σ ρ t :=
  ⟨.ofGraph computation.graph⟩

section Combinators

variable [DecidableEq ι]

/-- Give a function the value that a continuation gets, which must have the right type. -/
def checked (function : s.Value Base → Call σ (AsyncDeferred Base σ ρ t)) :
    Graph.Continuation σ (Future σ (Tagged Base) ρ) (Tagged Base) ρ := fun value => do
  let next ← function (← value.expect Promise.mismatch s)
  return next.graph

/-- Feed the value to a function that answers with a further computation. -/
def flatMap (first : AsyncDeferred Base σ ρ s)
    (function : s.Value Base → Call σ (AsyncDeferred Base σ ρ t)) : AsyncDeferred Base σ ρ t :=
  ⟨Graph.flatMap first.graph (checked function)⟩

/-- One computation and then another, of which the second has the value. -/
def andThen (first : AsyncDeferred Base σ ρ s) (second : AsyncDeferred Base σ ρ t) :
    AsyncDeferred Base σ ρ t :=
  first.flatMap fun _ => return second

/-- Run a computation again and again. A value of another type than its own is a panic. -/
def forever (body : AsyncDeferred Base σ ρ t) : AsyncDeferred Base σ ρ .never :=
  ⟨.cycle body.graph fun value =>
    (do let _ ← value.expect Promise.mismatch t : Call σ Unit)⟩

variable [Host σ (Tagged Base)]

/-- Run a synchronous computation when visited. -/
def fromDeferred {ρ' : Type} [Definitions Base ρ' σ] (computation : Deferred Base σ ρ' t) :
    AsyncDeferred Base σ ρ t :=
  fromThunk computation.run

/-- Apply a function to the value of a computation. -/
def map (first : AsyncDeferred Base σ ρ s) (function : s.Value Base → Call σ (t.Value Base)) :
    AsyncDeferred Base σ ρ t :=
  first.flatMap fun value => do
    let result ← Deferred.tagged (function value)
    return ⟨← Graph.leaveOnce result⟩

/-- Be ready after so many milliseconds, counted from the visit. -/
def sleep (milliseconds : Nat) : AsyncDeferred Base σ ρ .unit :=
  ⟨AsyncGraph.sleep milliseconds⟩

/-- Wait for so many milliseconds and then run a computation. -/
def delay (computation : AsyncDeferred Base σ ρ t) (milliseconds : Nat) :
    AsyncDeferred Base σ ρ t :=
  (sleep milliseconds).andThen computation

/-- Run a computation so many times, one run after the other, and collect the values. -/
def repeated (body : AsyncDeferred Base σ ρ t) (count : Nat) : AsyncDeferred Base σ ρ (.list t) :=
  ⟨body.graph.repeatedWith (fun value => value.expect Promise.mismatch t)
    (fun items => ⟨.list t, items⟩) count⟩

end Combinators

/-- One node of a computation, as the definition of a name gives it. -/
inductive Node {ι : Type} (Base : ι → Type) (σ ρ : Type) (t : Ty ι) where
  /-- Await a new promise at every visit. -/
  | fromAsync (action : Call σ (Promise Base σ ρ t))
  | flatMap {s : Ty ι} (first : AsyncDeferred Base σ ρ s)
      (function : s.Value Base → Call σ (AsyncDeferred Base σ ρ t))

/-- The node of a graph that a node of a computation is. -/
def Node.shape [DecidableEq ι] :
    Node Base σ ρ t → Shape σ (Future σ (Tagged Base) ρ) (Tagged Base)
      (AsyncGraph σ (Tagged Base) ρ)
  | .fromAsync action => .leaf (promised action)
  | .flatMap first function => .bind first.graph (checked function)

end AsyncDeferred

/-- Names for asynchronous computations, each of some type, with their definitions. -/
class AsyncDefinitions {ι : Type} (Base : ι → Type) (ρ σ : Type) where
  type : ρ → Ty ι
  node : (name : ρ) → AsyncDeferred.Node Base σ ρ (type name)

instance {ι : Type} (Base : ι → Type) (σ : Type) : AsyncDefinitions Base Empty σ where
  type name := name.elim
  node name := name.elim

instance {ι : Type} (Base : ι → Type) (ρ σ : Type) [DecidableEq ι] [AsyncDefinitions Base ρ σ] :
    Equations ρ σ (Future σ (Tagged Base) ρ) (Tagged Base) where
  node name := (AsyncDefinitions.node name : AsyncDeferred.Node Base σ ρ _).shape

namespace AsyncDeferred

variable {ι σ ρ : Type} {Base : ι → Type} {t : Ty ι} [DecidableEq ι] [AsyncDefinitions Base ρ σ]

/-- The computation that a name stands for. -/
def named (name : ρ) : AsyncDeferred Base σ ρ (AsyncDefinitions.type Base σ name) :=
  ⟨.named name⟩

/-- The printed form, which shows the kind of the first node only. -/
def shown (computation : AsyncDeferred Base σ ρ t) : String :=
  (Text.Shown.apply "AsyncIO" [.text computation.graph.kind.label]).line

end AsyncDeferred

end Deferral

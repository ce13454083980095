import Deferral.Run.Interpret
import Deferral.Text.Shown
import Deferral.Typed.Value

/-!
# Deferred computations with a type

A `Deferred` is a graph that yields values of one known type. Its combinators tag every value with
its type and check the tag wherever a continuation takes a value, so that the graph can be run by a
machine that knows nothing of types.

Computations may be defined in terms of each other: `Definitions` gives each name a type and a
`Deferred.Node` of that type, which is at the same time the equation that the graph of the name
obeys.
-/

namespace Deferral

/-- A computation of a value of a type. -/
structure Deferred {ι : Type} (Base : ι → Type) (σ ρ : Type) (t : Ty ι) where
  graph : Graph σ (Tagged Base) (Tagged Base) ρ

namespace Deferred

variable {ι σ ρ : Type} {Base : ι → Type} {s t : Ty ι}

/-- What a continuation says when it gets a value of another type. -/
def mismatch : String := "Type mismatch between graph node and continuation"

/-- Tag the value of a call. -/
def tagged (call : Call σ (t.Value Base)) : Call σ (Tagged Base) := do
  return ⟨t, ← call⟩

/-- The computation that calls a function for its value. -/
def fromThunk (produce : Call σ (t.Value Base)) : Deferred Base σ ρ t :=
  ⟨.fromThunk (tagged produce)⟩

/-- The computation with a given value. -/
def of (value : t.Value Base) : Deferred Base σ ρ t :=
  fromThunk (pure value)

section Combinators

variable [DecidableEq ι]

/-- Give a function the value that a continuation gets, which must have the right type. -/
def checked (function : s.Value Base → Call σ (Deferred Base σ ρ t)) :
    Graph.Continuation σ (Tagged Base) (Tagged Base) ρ := fun value => do
  let next ← function (← value.expect mismatch s)
  return next.graph

/-- Feed the value to a function that answers with a further computation. -/
def flatMap (first : Deferred Base σ ρ s) (function : s.Value Base → Call σ (Deferred Base σ ρ t)) :
    Deferred Base σ ρ t :=
  ⟨first.graph.flatMap (checked function)⟩

/-- Apply a function to the value of a computation. -/
def map [Host σ (Tagged Base)] (first : Deferred Base σ ρ s)
    (function : s.Value Base → Call σ (t.Value Base)) : Deferred Base σ ρ t :=
  first.flatMap fun value => do
    let result ← tagged (function value)
    return ⟨← Graph.leaveOnce result⟩

/-- One computation and then another, of which the second has the value. -/
def andThen (first : Deferred Base σ ρ s) (second : Deferred Base σ ρ t) : Deferred Base σ ρ t :=
  first.flatMap fun _ => return second

/-- Run a computation again and again. A value of another type than its own is a panic. -/
def forever (body : Deferred Base σ ρ t) : Deferred Base σ ρ .never :=
  ⟨.cycle body.graph fun value =>
    (do let _ ← value.expect mismatch t : Call σ Unit)⟩

end Combinators

/-- One node of a computation, as the definition of a name gives it. -/
inductive Node {ι : Type} (Base : ι → Type) (σ ρ : Type) (t : Ty ι) where
  | fromThunk (produce : Call σ (t.Value Base))
  | flatMap {s : Ty ι} (first : Deferred Base σ ρ s)
      (function : s.Value Base → Call σ (Deferred Base σ ρ t))

/-- The node of a graph that a node of a computation is. -/
def Node.shape [DecidableEq ι] :
    Node Base σ ρ t → Shape σ (Tagged Base) (Tagged Base) (Graph σ (Tagged Base) (Tagged Base) ρ)
  | .fromThunk produce => .leaf (tagged produce)
  | .flatMap first function => .bind first.graph (checked function)

end Deferred

/-- Names for computations, each of some type, with their definitions. -/
class Definitions {ι : Type} (Base : ι → Type) (ρ σ : Type) where
  type : ρ → Ty ι
  node : (name : ρ) → Deferred.Node Base σ ρ (type name)

instance {ι : Type} (Base : ι → Type) (σ : Type) : Definitions Base Empty σ where
  type name := name.elim
  node name := name.elim

instance {ι : Type} (Base : ι → Type) (ρ σ : Type) [DecidableEq ι] [Definitions Base ρ σ] :
    Equations ρ σ (Tagged Base) (Tagged Base) where
  node name := (Definitions.node name : Deferred.Node Base σ ρ _).shape

namespace Deferred

variable {ι σ ρ : Type} {Base : ι → Type} {t : Ty ι} [DecidableEq ι] [Definitions Base ρ σ]

/-- The computation that a name stands for. -/
def named (name : ρ) : Deferred Base σ ρ (Definitions.type Base σ name) :=
  ⟨.named name⟩

section Run

variable [Host σ (Tagged Base)]

/-- Run to the end. A value of another type than that of the computation is a panic. -/
def run (computation : Deferred Base σ ρ t) : Call σ (t.Value Base) := do
  (← computation.graph.run).expect mismatch t

/-- Run as the options say. A value of another type than that of the computation is a panic. -/
def runWith (computation : Deferred Base σ ρ t) (options : RunOptions) :
    Call σ (Except RunError (Completed (t.Value Base))) := do
  match ← computation.graph.runWith options with
  | .ok completed => return .ok ⟨← completed.value.expect mismatch t, completed.stats⟩
  | .error error => return .error error

/-- Run to the end and return the value, or the panic as an error. -/
def tryRun (computation : Deferred Base σ ρ t) : Call σ (Except RunError (t.Value Base)) :=
  Host.capture computation.run

end Run

/-- The printed form, which shows the kind of the first node only. -/
def shown (computation : Deferred Base σ ρ t) : String :=
  (Text.Shown.apply "IO" [.text computation.graph.kind.label]).line

end Deferred

end Deferral

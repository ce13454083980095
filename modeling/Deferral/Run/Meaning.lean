import Deferral.Graph.Basic

/-!
# The meaning of a graph

What running a graph amounts to, said by recursion on the graph and not by a loop: a leaf is its
call, a bind is its predecessor followed by the graph that the continuation answers with. The
function `Graph.eval` says it for all graphs at once and diverges where no value is ever reached;
the relation `Graph.Evaluates` says it by finite derivations.
-/

namespace Deferral.Graph

variable {σ V ρ : Type} [Equations ρ σ V V]

/-- The recursive meaning of a graph. -/
def eval (graph : Graph σ V V ρ) : Call σ V :=
  match graph.shape with
  | .leaf produce => produce
  | .bind predecessor resume => do
    let value ← predecessor |>.eval
    let next ← resume value
    next |>.eval
partial_fixpoint

/-- A graph ends in the given way, from one world to another, by a finite derivation. -/
inductive Evaluates : Graph σ V V ρ → σ → Except Panic V → σ → Prop
  | leaf {graph : Graph σ V V ρ} {produce : Call σ V} {before after : σ} {ending : Except Panic V}
      (shape_eq : graph.shape = .leaf produce)
      (called : produce before = some (ending, after)) :
      Evaluates graph before ending after
  | predecessorPanics {graph predecessor : Graph σ V V ρ} {resume : Continuation σ V V ρ}
      {before after : σ} {reason : Panic}
      (shape_eq : graph.shape = .bind predecessor resume)
      (first : Evaluates predecessor before (.error reason) after) :
      Evaluates graph before (.error reason) after
  | continuationPanics {graph predecessor : Graph σ V V ρ} {resume : Continuation σ V V ρ}
      {before between after : σ} {value : V} {reason : Panic}
      (shape_eq : graph.shape = .bind predecessor resume)
      (first : Evaluates predecessor before (.ok value) between)
      (called : resume value between = some (.error reason, after)) :
      Evaluates graph before (.error reason) after
  | bind {graph predecessor next : Graph σ V V ρ} {resume : Continuation σ V V ρ}
      {before between resumed after : σ} {value : V} {ending : Except Panic V}
      (shape_eq : graph.shape = .bind predecessor resume)
      (first : Evaluates predecessor before (.ok value) between)
      (called : resume value between = some (.ok next, resumed))
      (second : Evaluates next resumed ending after) :
      Evaluates graph before ending after

end Deferral.Graph

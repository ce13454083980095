import Deferral.Graph.Basic
import Deferral.Host

/-!
# Leaves from functions, and mapping

A leaf made from a function calls it at every visit. Mapping is feeding a value to a leaf that
already has its result. The result need not be kept for a second visit, because such a leaf is made
anew each time the continuation is called and only that run can reach it. So it is left in a place
of the world and taken from there by the visit that follows at once.
-/

namespace Deferral

/-- How a value that is there at once appears as the product of a leaf. -/
class Immediate (V L : Type) where
  ready : V → L

/-- A leaf that produces values produces a value as it is. -/
instance (V : Type) : Immediate V V where
  ready value := value

namespace Graph

variable {σ L V ρ : Type} [Immediate V L]

/-- The leaf that calls a function for its value. -/
def fromThunk (produce : Call σ V) : Graph σ L V ρ :=
  .leaf (Immediate.ready <$> produce : Call σ L)

/-- The leaf with a given value. -/
def of (value : V) : Graph σ L V ρ :=
  fromThunk (pure value)

/-- The leaf that takes the value that was left in a place. -/
def once [Host σ V] (place : Nat) : Graph σ L V ρ :=
  fromThunk (Host.takeOnce place)

/-- Leave a value behind and answer with the leaf that takes it. -/
def leaveOnce [Host σ V] (value : V) : Call σ (Graph σ L V ρ) := do
  let place ← Call.change (Host.leave value)
  return once place

/-- Apply a function to the value of a graph. The result is left in a place, for the leaf that comes
next to take it. -/
def map [Host σ V] (graph : Graph σ L V ρ) (function : V → Call σ V) : Graph σ L V ρ :=
  graph.flatMap fun value => do leaveOnce (← function value)

end Graph

end Deferral

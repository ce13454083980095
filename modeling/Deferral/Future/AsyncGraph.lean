import Deferral.Future.Basic
import Deferral.Run.Interpret

/-!
# Leaves and combinators of asynchronous graphs

Besides the leaves that every graph has, an asynchronous one has leaves that make a future of their
own, leaves that sleep, and leaves that run another graph: a synchronous one at once, or an
asynchronous one several times over.
-/

namespace Deferral

/-- The value of a type of values that says nothing; sleeping yields it. -/
class Unital (V : Type) where
  unit : V

namespace AsyncGraph

variable {σ V ρ : Type}

/-- The leaf that makes a new future at every visit. -/
def fromAsync (action : Call σ (Future σ V ρ)) : AsyncGraph σ V ρ :=
  .leaf action

/-- The leaf that runs a synchronous graph at every visit. -/
def fromGraph [Host σ V] {ρ' : Type} [Equations ρ' σ V V] (graph : Graph σ V V ρ') :
    AsyncGraph σ V ρ :=
  Graph.fromThunk graph.run

/-- The leaf that is ready after so many milliseconds, counted from its visit. -/
def sleep [Host σ V] [Unital V] (milliseconds : Nat) : AsyncGraph σ V ρ :=
  fromAsync do
    Host.report (.delayStarted milliseconds)
    return .sleep (← Call.read (Host.deadline milliseconds)) Unital.unit

/-- Wait for so many milliseconds and then run a graph. -/
def delay [Host σ V] [Unital V] (graph : AsyncGraph σ V ρ) (milliseconds : Nat) :
    AsyncGraph σ V ρ :=
  (sleep milliseconds).andThen graph

/-- The rounds of a repetition that are still to be run, after those whose items, the last one
first, are there already. The value of each round passes through `accept`, and `collect` makes a
value of all the items. -/
def rounds {α : Type} [Host σ V] (body : AsyncGraph σ V ρ) (accept : V → Call σ α)
    (collect : List α → V) (count : Nat) : Nat → List α → Future σ V ρ
  | 0, items => .ready (collect items.reverse)
  | left + 1, items =>
    .after do
      Host.report (.repetition (count - (left + 1)) count)
      return (Future.ofGraph body).followedBy fun value => do
        let item ← accept value
        return rounds body accept collect count left (item :: items)

/-- The bytes that an item of a list takes: those of a text or of a list. -/
def itemBytes : Nat := 24

/-- The largest number of items for which room can be asked for. -/
def mostItems : Nat := mostBytes / itemBytes

theorem bytes_le_iff (count : Nat) : itemBytes * count ≤ mostBytes ↔ count ≤ mostItems := by
  rw [mostItems, Nat.le_div_iff_mul_le (by decide), Nat.mul_comm]

/-- Run a graph so many times, one run after the other, and collect what `accept` makes of the
values. Room for all of them is made before the first run. -/
def repeatedWith {α : Type} [Host σ V] (body : AsyncGraph σ V ρ) (accept : V → Call σ α)
    (collect : List α → V) (count : Nat) : AsyncGraph σ V ρ :=
  fromAsync do
    Call.reserve itemBytes count
    return rounds body accept collect count count []

/-- Run a graph so many times, one run after the other, and collect the values. -/
def repeated [Host σ V] (body : AsyncGraph σ V ρ) (collect : List V → V) (count : Nat) :
    AsyncGraph σ V ρ :=
  body.repeatedWith pure collect count

end AsyncGraph

end Deferral

/-!
# What goes into a run and what comes out

Options bound a run, statistics measure it. A visit is one pass over a node; the statistics count
visits and remember the largest number of continuations that waited at once.
-/

namespace Deferral

/-- How a run is bounded. -/
structure RunOptions where
  /-- The number of visits after which a run is stopped, if any. -/
  stepLimit : Option UInt64
  /-- For how many continuations room is taken in advance. More is taken when it is needed. -/
  stackCapacity : UInt64
  deriving Repr, DecidableEq

namespace RunOptions

/-- The room provided for when nothing else is asked for. -/
def defaultStackCapacity : UInt64 := 16

/-- No limit, and the default room for the stack. -/
def unbounded : RunOptions where
  stepLimit := none
  stackCapacity := defaultStackCapacity

instance : Inhabited RunOptions := ⟨unbounded⟩

/-- The same options with a limit. -/
def withStepLimit (limit : UInt64) (options : RunOptions) : RunOptions :=
  { options with stepLimit := some limit }

/-- The same options with other room for the stack. -/
def withStackCapacity (capacity : UInt64) (options : RunOptions) : RunOptions :=
  { options with stackCapacity := capacity }

end RunOptions

/-- How large a run was. The visits are counted without a bound: a counter of 64 bits holds those of
every limited run, and no run lives to see the `2 ^ 64`th visit. -/
structure RunStats where
  steps : Nat
  /-- The largest number of continuations that were pending at once. -/
  peakStackDepth : Nat
  deriving Repr, DecidableEq, Inhabited

/-- The value of a run and how large the run was. -/
structure Completed (α : Type) where
  value : α
  stats : RunStats
  deriving Repr, DecidableEq

/-- Why a checked run has no value. -/
inductive RunError where
  | stepLimitExceeded (limit : UInt64) (stats : RunStats)
  | panicked (message : String)
  deriving Repr, DecidableEq

namespace RunError

/-- The words for an error. -/
def message : RunError → String
  | .stepLimitExceeded limit stats =>
      s!"interpretation stopped after {limit} steps (peak stack depth {stats.peakStackDepth})"
  | .panicked message => s!"effect panicked: {message}"

end RunError

end Deferral

import Deferral.Graph.Map
import Deferral.Run.Machine

/-!
# Running a graph

The ways to run a graph in a world with a listener. Each interpretation reports its start and its
end and keeps its own count and its own stack; an interpretation that a user function starts inside
another one is part of a single visit of the outer one. An interpretation left by a panic reports no
end. Room for the stack is taken before the start is reported, so where none can be had there is a
panic and no report at all.
-/

namespace Deferral

/-- The event that reports how a bounded run ends. -/
def Halt.event {V : Type} : Halt V → Event
  | .finished _ stats => .finished stats
  | .limitReached stats pending => .limitReached stats pending

/-- Make a call, and where it panics report the panic and return it as an error. -/
def Host.capture {σ V α : Type} [Host σ V] (call : Call σ α) : Call σ (Except RunError α) := do
  match ← call.attempt with
  | .ok value => return .ok value
  | .error reason =>
    let error := RunError.panicked reason.message
    Host.report (.panicCaptured error)
    return .error error

namespace Graph

variable {σ V ρ : Type} [Host σ V] [Equations ρ σ V V]

/-- Run to the end, however long it takes, and measure the run. -/
def runToEnd (graph : Graph σ V V ρ) (options : RunOptions) : Call σ (Completed V) := do
  let machine ← Machine.provided graph options.stackCapacity
  Host.report (.started none)
  let (value, stats) ← machine.drive
  Host.report (.finished stats)
  return ⟨value, stats⟩

/-- Run for at most `limit` visits. -/
def runWithin (graph : Graph σ V V ρ) (limit : UInt64) (options : RunOptions) :
    Call σ (Except RunError (Completed V)) := do
  let machine ← Machine.provided graph options.stackCapacity
  Host.report (.started (some limit))
  let halt ← machine.driveWithin limit.toNat
  Host.report halt.event
  match halt with
  | .finished value stats => return .ok ⟨value, stats⟩
  | .limitReached stats _ => return .error (.stepLimitExceeded limit stats)

/-- Run as the options say. -/
def runWith (graph : Graph σ V V ρ) (options : RunOptions) :
    Call σ (Except RunError (Completed V)) :=
  match options.stepLimit with
  | none => do return .ok (← graph.runToEnd options)
  | some limit => graph.runWithin limit options

/-- Run to the end and return the value. -/
def run (graph : Graph σ V V ρ) : Call σ V := do
  return (← graph.runToEnd .unbounded).value

/-- Run to the end and return the value, or the panic as an error. -/
def tryRun (graph : Graph σ V V ρ) : Call σ (Except RunError V) :=
  Host.capture graph.run

end Graph

end Deferral

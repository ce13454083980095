import Deferral.Run.Report
import Deferral.Text.Duration

/-!
# Events

Interpretations tell a listener what they are doing. An event is data; its level, message and fields
are the form in which a listener records it.
-/

namespace Deferral

/-- How important an event is. -/
inductive Level where
  | trace
  | debug
  | warn
  deriving Repr, DecidableEq

/-- The name of a level as a listener sees it. -/
def Level.name : Level → String
  | .trace => "TRACE"
  | .debug => "DEBUG"
  | .warn => "WARN"

/-- What an interpretation reports. -/
inductive Event where
  | started (limit : Option UInt64)
  | finished (stats : RunStats)
  /-- A run was stopped with this many continuations still pending. -/
  | limitReached (stats : RunStats) (pending : Nat)
  | panicCaptured (error : RunError)
  | asyncFinished (peakStackDepth : Nat)
  /-- A repetition begins its round `iteration`, counted from zero. -/
  | repetition (iteration count : Nat)
  | delayStarted (milliseconds : Nat)
  deriving Repr, DecidableEq

namespace Event

/-- How much an event matters: a stop is unusual, a captured panic is a warning. -/
def level : Event → Level
  | .limitReached .. => .debug
  | .panicCaptured .. => .warn
  | _ => .trace

/-- The text of an event. -/
def message : Event → String
  | .started .. => "graph interpretation started"
  | .finished .. => "graph interpretation finished"
  | .limitReached .. => "graph interpretation hit its step limit"
  | .panicCaptured .. => "captured panic while interpreting graph"
  | .asyncFinished .. => "async graph interpretation finished"
  | .repetition .. => "async repeat iteration"
  | .delayStarted .. => "async delay started"

/-- An optional number as a field shows it. -/
def optionText : Option UInt64 → String
  | none => "None"
  | some number => s!"Some({number})"

/-- The measurements of an event, by name. -/
def fields : Event → List (String × String)
  | .started limit => [("step_limit", optionText limit)]
  | .finished stats =>
      [("steps", toString stats.steps), ("peak_stack_depth", toString stats.peakStackDepth)]
  | .limitReached stats pending =>
      [("steps", toString stats.steps), ("pending", toString pending),
        ("peak_stack_depth", toString stats.peakStackDepth)]
  | .panicCaptured error => [("error", error.message)]
  | .asyncFinished peak => [("peak_stack_depth", toString peak)]
  | .repetition iteration count =>
      [("iteration", toString iteration), ("count", toString count)]
  | .delayStarted milliseconds => [("duration", Text.duration milliseconds)]

end Event

end Deferral

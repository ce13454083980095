import Deferral.Proofs.Run.Halts

/-!
# Calls that start interpretations

A user function may interpret graphs itself, and the functions of these graphs may do so again.
`Executes` tells what such a call does together with the events that are reported meanwhile. A call
is made of quiet work, of calls in sequence and of interpretations. The visits of an interpretation
execute the calls of its nodes; however many interpretations are started in one of these calls, for
the interpretation around them it is a part of one visit.

`Bracketed` and `Inside` say of a list of events alone that it is well nested.
-/

namespace Deferral

/-- How the bracket of an interpretation is closed. -/
inductive Closing where
  | finished (stats : RunStats)
  | limitReached (stats : RunStats) (pending : Nat)
  | leftByPanic
  deriving Repr, DecidableEq

namespace Closing

/-- What is reported when an interpretation closes. -/
def events : Closing → List Event
  | .finished stats => [.finished stats]
  | .limitReached stats pending => [.limitReached stats pending]
  | .leftByPanic => []

/-- How an interpretation that halts in the given way closes. -/
def of {V : Type} : Except Panic (Halt V) → Closing
  | .ok (.finished _ stats) => .finished stats
  | .ok (.limitReached stats pending) => .limitReached stats pending
  | .error _ => .leftByPanic

end Closing

mutual

/-- The events of one interpretation that is closed in the given way. -/
inductive Bracketed : Closing → List Event → Prop
  | interpretation (limit : Option UInt64) {inside : List Event} (nested : Inside inside)
      (closing : Closing) : Bracketed closing (.started limit :: (inside ++ closing.events))

/-- The events of any number of interpretations, one after the other. A captured panic is reported
once, right after the interpretation that it left. -/
inductive Inside : List Event → Prop
  | nothing : Inside []
  | interpretation {closing : Closing} {first rest : List Event} (nested : Bracketed closing first)
      (more : Inside rest) : Inside (first ++ rest)
  | captured {first rest : List Event} (nested : Bracketed .leftByPanic first) (error : RunError)
      (more : Inside rest) : Inside (first ++ .panicCaptured error :: rest)

end

theorem Inside.append {first rest : List Event} (inside : Inside first) (more : Inside rest) :
    Inside (first ++ rest) := by
  match inside with
  | .nothing => exact more
  | .interpretation nested between =>
      rw [List.append_assoc]
      exact .interpretation nested (between.append more)
  | .captured nested error between =>
      rw [List.append_assoc, List.cons_append]
      exact .captured nested error (between.append more)

theorem Bracketed.inside {closing : Closing} {events : List Event}
    (bracketed : Bracketed closing events) : Inside events := by
  have inside := Inside.interpretation bracketed .nothing
  rwa [List.append_nil] at inside

variable {ω V : Type}

namespace Session

/-- What the listener has heard, in order. -/
def heard (session : Session ω V) : List Event := session.events.toList

theorem heard_emit (event : Event) (session : Session ω V) :
    (Host.emit event session).heard = session.heard ++ [event] :=
  Array.toList_push

theorem heard_begun (limit : Option UInt64) (session : Session ω V) :
    (Graph.begun limit session).heard = session.heard ++ [.started limit] :=
  heard_emit _ _

theorem heard_closed (ending : Except Panic (Halt V)) (session : Session ω V) :
    (Graph.closed ending session).heard = session.heard ++ (Closing.of ending).events := by
  rcases ending with reason | (⟨value, stats⟩ | ⟨stats, pending⟩)
  · exact (List.append_nil _).symm
  · exact heard_emit _ _
  · exact heard_emit _ _

end Session

/-- A call ends in the given way, from one session to another, and these events are reported
meanwhile. -/
inductive Executes : {α : Type} → Call (Session ω V) α → Session ω V → List Event →
    Except Panic α → Session ω V → Prop
  | quiet {α : Type} {call : Call (Session ω V) α} {before after : Session ω V}
      {ending : Except Panic α} (answered : call before = some (ending, after))
      (silent : after.events = before.events) : Executes call before [] ending after
  | bind {α β : Type} {call : Call (Session ω V) α} {next : α → Call (Session ω V) β}
      {before between after : Session ω V} {events more : List Event} {value : α}
      {ending : Except Panic β} (first : Executes call before events (.ok value) between)
      (rest : Executes (next value) between more ending after) :
      Executes (call >>= next) before (events ++ more) ending after
  | bindPanics {α β : Type} {call : Call (Session ω V) α} {next : α → Call (Session ω V) β}
      {before after : Session ω V} {events : List Event} {reason : Panic}
      (first : Executes call before events (.error reason) after) :
      Executes (call >>= next) before events (.error reason) after
  /-- A user function may catch a panic itself, which is not reported. -/
  | attempt {α : Type} {call : Call (Session ω V) α} {before after : Session ω V}
      {events : List Event} {ending : Except Panic α}
      (tried : Executes call before events ending after) :
      Executes call.attempt before events (.ok ending) after
  /-- All that matters of a call is what it does in the session in which it is made. -/
  | alike {α : Type} {call other : Call (Session ω V) α} {before after : Session ω V}
      {events : List Event} {ending : Except Panic α} (same : call before = other before)
      (executes : Executes other before events ending after) :
      Executes call before events ending after
  /-- An interpretation has its own measurements, see `Graph.Halts`, whatever its visits execute. -/
  | interpret {ρ : Type} [Equations ρ (Session ω V) V V] {graph : Graph (Session ω V) V V ρ}
      {options : RunOptions} {before between : Session ω V} {inside : List Event}
      {ending : Except Panic (Halt V)} (halts : graph.Halts options before ending between)
      (visits : Executes (graph.loop options) (Graph.begun options.stepLimit before) inside ending
        between) :
      Executes (graph.interpret options) before
        (.started options.stepLimit :: (inside ++ (Closing.of ending).events)) ending
        (Graph.closed ending between)
  /-- The panic that leaves an interpretation is captured and reported. -/
  | capture {ρ : Type} [Equations ρ (Session ω V) V V] {graph : Graph (Session ω V) V V ρ}
      {before between : Session ω V} {inside : List Event} {reason : Panic}
      (halts : graph.Halts .unbounded before (.error reason) between)
      (visits : Executes (graph.loop .unbounded) (Graph.begun none before) inside (.error reason)
        between) :
      Executes graph.tryRun before
        (.started none :: (inside ++ [.panicCaptured (.panicked reason.message)]))
        (.ok (.error (.panicked reason.message)))
        (Host.emit (.panicCaptured (.panicked reason.message)) between)

namespace Executes

variable {α : Type} {call : Call (Session ω V) α} {before after : Session ω V} {events : List Event}
  {ending : Except Panic α}

/-- What is executed is what the call does. -/
theorem answered (executes : Executes call before events ending after) :
    call before = some (ending, after) := by
  induction executes with
  | quiet answered _ => exact answered
  | bind _ _ ih_first ih_rest => rw [Call.bind_of_ok ih_first, ih_rest]
  | bindPanics _ ih => exact Call.bind_of_error ih
  | attempt _ ih => rw [Call.attempt_apply, ih, Option.map_some]
  | alike same _ ih => rw [same, ih]
  | interpret halts _ _ => exact Graph.interpret_eq_some_iff.mpr ⟨_, halts, rfl⟩
  | capture halts _ _ =>
      rw [Graph.tryRun_apply, Graph.run_eq_interpret,
        Call.bind_of_error (Graph.interpret_eq_some_iff.mpr ⟨_, halts, rfl⟩)]
      rfl

/-- The events are those that the listener hears. -/
theorem heard (executes : Executes call before events ending after) :
    after.heard = before.heard ++ events := by
  induction executes with
  | quiet _ silent => rw [Session.heard, silent, Session.heard, List.append_nil]
  | bind _ _ ih_first ih_rest => rw [ih_rest, ih_first, List.append_assoc]
  | bindPanics _ ih | attempt _ ih | alike _ _ ih => exact ih
  | interpret _ _ ih =>
      rw [Session.heard_closed, ih, Session.heard_begun, List.append_assoc, List.append_assoc]
      rfl
  | capture _ _ ih =>
      rw [Session.heard_emit, ih, Session.heard_begun, List.append_assoc, List.append_assoc]
      rfl

/-- The events are well nested. -/
theorem inside (executes : Executes call before events ending after) : Inside events := by
  induction executes with
  | quiet => exact .nothing
  | bind _ _ ih_first ih_rest => exact ih_first.append ih_rest
  | bindPanics _ ih | attempt _ ih | alike _ _ ih => exact ih
  | interpret _ _ ih => exact (Bracketed.interpretation _ ih _).inside
  | capture _ _ ih =>
      -- The panic leaves the interpretation without an end, so the report follows what is inside.
      have left := Bracketed.interpretation none ih .leftByPanic
      rw [Closing.events, List.append_nil] at left
      exact .captured left _ .nothing

end Executes

end Deferral

import Deferral.Future.Basic

/-!
# Completing futures

The ways in which someone who holds a future can bring it to its end. Time passes only while
everything is asleep, and then straight to the next moment at which something can go on. A future
that is given up is simply not polled again.

Those who wait for a future give it turns in which a limited number of waits may end. Polling by
hand knows no such limit.
-/

namespace Deferral

/-- Let the time pass until polling makes sense again. -/
def Host.sleepUntil {σ V : Type} [Host σ V] : Wake → Call σ Unit
  | .soon => return ()
  | .at moment => Host.wait moment

/-- How many waits may end in one turn. -/
def turnAllowance : Nat := 128

namespace Future

variable {σ V ρ : Type} [Host σ V] [Equations ρ σ (Future σ V ρ) V]

/-- Poll a future until it is ready. Each poll is a turn of its own, and between two polls the wake
is waited for. -/
def complete (future : Future σ V ρ) : Call σ V := do
  Host.turn (some turnAllowance)
  match ← future.poll with
  | .ready value => return value
  | .pending wake rest => do
    Host.sleepUntil wake
    rest |>.complete
partial_fixpoint

/-- Poll until the value is there or the deadline has come. The future is polled before the deadline
is looked at, so one that is ready just then is in time. -/
def completeBy (future : Future σ V ρ) (deadline : Nat) : Call σ (Option V) := do
  Host.turn (some turnAllowance)
  match ← future.poll with
  | .ready value => return some value
  | .pending wake rest =>
    if deadline ≤ (← Host.clock) then
      return none
    else do
      Host.sleepUntil (wake.earlier (.at deadline))
      rest |>.completeBy deadline
partial_fixpoint

/-- Poll until the value is there or so many milliseconds have passed, however many these are: a
single wait is cut short at its longest, the time for all of them is not. -/
def completeWithin (milliseconds : Nat) (future : Future σ V ρ) : Call σ (Option V) := do
  future.completeBy ((← Host.clock) + milliseconds)

/-- Poll at most so many times while the time stands still. A value comes with the number of the
poll that had it. -/
def pollTimes (future : Future σ V ρ) : Nat → Nat → Call σ (Option (V × Nat))
  | 0, _ => return none
  | allowed + 1, made => do
    Host.turn none
    match ← future.poll with
    | .ready value => return some (value, made + 1)
    | .pending _ rest => rest.pollTimes allowed (made + 1)

/-- A future of a group, or its value once it is ready. -/
inductive Member (σ V ρ : Type) where
  | done (value : V)
  | running (future : Future σ V ρ)

/-- Futures that are polled together on one task. -/
structure Group (σ V ρ : Type) where
  members : List (Member σ V ρ)

/-- The values of a group when all of its members are done. -/
def Member.values? : List (Member σ V ρ) → Option (List V)
  | [] => some []
  | .running _ :: _ => none
  | .done value :: members => (values? members).map (value :: ·)

/-- Poll every member that is still running, in their order, and find the earliest wake. -/
def pollAll : List (Member σ V ρ) → Call σ (List (Member σ V ρ) × Option Wake)
  | [] => return ([], none)
  | .done value :: members => do
    let (members, wake) ← pollAll members
    return (.done value :: members, wake)
  | .running future :: members => do
    match ← future.poll with
    | .ready value =>
      let (members, wake) ← pollAll members
      return (.done value :: members, wake)
    | .pending wake rest =>
      let (members, other) ← pollAll members
      return (.running rest :: members, some (other.elim wake wake.earlier))

/-- Poll the whole group, turn by turn, until all of its members are done. -/
def Group.complete (group : Group σ V ρ) : Call σ (List V) := do
  Host.turn (some turnAllowance)
  let (members, wake) ← pollAll group.members
  match Member.values? members with
  | some values => return values
  | none => do
    Host.sleepUntil (wake.getD .soon)
    Group.mk members |>.complete
partial_fixpoint

/-- Run futures together to the end. -/
def completeAll (futures : List (Future σ V ρ)) : Call σ (List V) :=
  Group.complete ⟨futures.map .running⟩

end Future

end Deferral

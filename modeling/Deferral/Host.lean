import Deferral.Event
import Deferral.Call

/-!
# The world a run needs

Apart from what user functions do with it, a run asks some things of its world: a place where a
value can be left for exactly one taker, a listener for events, a clock that can be read and waited
for, and permission to go on when a wait is over. `Host` names them, so that the machines work in
any world that offers them.

A place exists from the moment when a value is left until it is taken. So a value that is taken at
once leaves no trace, which `Host.take_leave` says.

Whoever polls futures for others does it turn by turn, and a world may allow only so many waits to
end in one turn. A future that never has to wait for long then still lets the others have theirs.

`Session` is the world that the library itself provides around a user's state.
-/

namespace Deferral

/-- What a run asks of its world, for values of type `V`. -/
class Host (σ : Type) (V : outParam Type) where
  /-- Leave a value in a place of its own. -/
  leave : V → σ → Nat × σ
  /-- Take what was left in a place, and the place with it; there is nothing for a second taker. -/
  take : Nat → σ → Option V × σ
  emit : Event → σ → σ
  /-- The time, in milliseconds. -/
  now : σ → Nat
  /-- The moment at which a wait of so many milliseconds is over if it begins now. -/
  deadline : Nat → σ → Nat
  waitUntil : Nat → σ → σ
  /-- Begin a turn in which so many waits may end, or any number of them. -/
  beginTurn : Option Nat → σ → σ
  /-- Ask to end a wait for a moment. This is refused before the moment has come, and also when no
  more waits may end in this turn. -/
  endWait : Nat → σ → Bool × σ
  /-- What has just been left can be taken, and then everything is as it was. -/
  take_leave : ∀ (value : V) (world : σ),
    take (leave value world).1 (leave value world).2 = (some value, world)
  /-- Before a value is left in a place, nobody could take anything there. -/
  take_fresh : ∀ (value : V) (world : σ), (take (leave value world).1 world).1 = none

namespace Host

variable {σ V : Type} [Host σ V]

/-- Tell the listener of an event. -/
def report (event : Event) : Call σ Unit :=
  Call.change fun world => ((), emit event world)

/-- Read the clock. -/
def clock : Call σ Nat := Call.read now

/-- Wait until a moment. -/
def wait (moment : Nat) : Call σ Unit :=
  Call.change fun world => ((), waitUntil moment world)

/-- Begin a turn in which so many waits may end, or any number of them. -/
def turn (allowance : Option Nat) : Call σ Unit :=
  Call.change fun world => ((), beginTurn allowance world)

/-- Take a value that must still be there. -/
def takeOnce (place : Nat) : Call σ V := do
  match ← Call.change (take place) with
  | some value => return value
  | none => Call.panic "A one-shot leaf is visited at most once"

theorem takeOnce_leave (value : V) (world : σ) :
    (takeOnce (leave value world).1 : Call σ V) (leave value world).2 =
      some (.ok value, world) := by
  rw [takeOnce, Call.bind_apply, Call.change_apply, take_leave]
  rfl

end Host

/-- Places with what was left in them, the latest first. -/
abbrev Places (V : Type) := List (Nat × V)

namespace Places

variable {V : Type}

/-- The number of a place that does not exist. -/
def fresh : Places V → Nat
  | [] => 0
  | (place, _) :: places => max (place + 1) (fresh places)

/-- What was left in a place, and the other places. -/
def take (wanted : Nat) : Places V → Option V × Places V
  | [] => (none, [])
  | (place, value) :: places =>
    if place = wanted then (some value, places)
    else
      let (taken, places) := take wanted places
      (taken, (place, value) :: places)

theorem take_of_fresh_le {wanted : Nat} (places : Places V) (large : fresh places ≤ wanted) :
    (take wanted places).1 = none := by
  induction places with
  | nil => rfl
  | cons first places ih =>
      obtain ⟨place, value⟩ := first
      simp only [fresh] at large
      have different : place ≠ wanted := by omega
      simp only [take, different, if_false]
      exact ih (by omega)

end Places

/-- A user's state with a clock, the events heard so far, the places for values left behind, and the
number of waits that may still end in this turn if there is a limit to it. -/
structure Session (ω V : Type) where
  user : ω
  clock : Nat
  events : Array Event
  places : Places V
  allowance : Option Nat

namespace Session

variable {ω V α : Type}

/-- A session at time zero in which nothing has happened. -/
def start (user : ω) : Session ω V where
  user := user
  clock := 0
  events := #[]
  places := []
  allowance := none

/-- Leave a value in a place of its own. -/
def leave (value : V) (session : Session ω V) : Nat × Session ω V :=
  let place := session.places.fresh
  (place, { session with places := (place, value) :: session.places })

/-- Take what was left in a place of the session. -/
def take (place : Nat) (session : Session ω V) : Option V × Session ω V :=
  let (taken, places) := session.places.take place
  (taken, { session with places })

/-- Tell the listener, who remembers every event. -/
def emit (event : Event) (session : Session ω V) : Session ω V :=
  { session with events := session.events.push event }

/-- The longest wait, thirty years of 365 days each; a wait that is meant to take longer is over by
then. Only a single wait is cut short in this way. A computation may wait again and again, and the
time within which it is to be complete has no such bound. -/
def longestWait : Nat := 946080000000

/-- The end of a wait that begins now. No wait is longer than `longestWait`. -/
def deadline (milliseconds : Nat) (session : Session ω V) : Nat :=
  session.clock + min milliseconds longestWait

/-- Move the clock forward; it never goes back. -/
def waitUntil (moment : Nat) (session : Session ω V) : Session ω V :=
  { session with clock := max session.clock moment }

/-- Begin a turn: from here on so many waits may end. -/
def beginTurn (allowance : Option Nat) (session : Session ω V) : Session ω V :=
  { session with allowance }

/-- End a wait if its moment has come and the turn allows for it. -/
def endWait (moment : Nat) (session : Session ω V) : Bool × Session ω V :=
  if session.clock < moment then (false, session)
  else
    match session.allowance with
    | none => (true, session)
    | some 0 => (false, session)
    | some (left + 1) => (true, { session with allowance := some left })

instance : Host (Session ω V) V where
  leave := leave
  take := take
  emit := emit
  now := clock
  deadline := deadline
  waitUntil := waitUntil
  beginTurn := beginTurn
  endWait := endWait
  take_leave value session := by simp [leave, take, Places.take]
  take_fresh value session := Places.take_of_fresh_le session.places (Nat.le_refl _)

/-- Work on the user's state alone. -/
def withUser (step : ω → α × ω) : Call (Session ω V) α :=
  Call.change fun session =>
    let (value, user) := step session.user
    (value, { session with user })

end Session

end Deferral

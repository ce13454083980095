import Deferral.Proofs.Call
import Deferral.Run.Interpret

/-!
# Runs around their loops

Every way to run a graph is a loop between two reports. The first report is made before the first
visit, so the loop begins in the world that `Graph.begun` names. The last one is made where the loop
has an answer and is not made where the loop panics. A run that captures its panic reports it
instead.
-/

namespace Deferral

/-- The answer of a limited run that ends in the given way. -/
def Halt.answer {V : Type} (limit : UInt64) : Halt V → Except RunError (Completed V)
  | .finished value stats => .ok ⟨value, stats⟩
  | .limitReached stats _ => .error (.stepLimitExceeded limit stats)

section Capture

variable {σ V α : Type} [Host σ V] {call : Call σ α} {before last : σ}

theorem Host.capture_apply (call : Call σ α) (before : σ) :
    Host.capture call before = (call before).map fun
      | (.ok value, after) => (.ok (.ok value), after)
      | (.error reason, after) =>
        (.ok (.error (.panicked reason.message)),
          Host.emit (.panicCaptured (.panicked reason.message)) after) := by
  rw [Host.capture, Call.bind_apply, Call.attempt_apply]
  rcases call before with _ | ⟨_ | value, after⟩ <;> rfl

theorem Host.capture_eq_ok_iff {value : α} :
    Host.capture call before = some (.ok (.ok value), last) ↔
      call before = some (.ok value, last) := by
  rw [Host.capture_apply]
  rcases call before with _ | ⟨_ | value, after⟩ <;> simp

theorem Host.capture_eq_error_iff {error : RunError} :
    Host.capture call before = some (.ok (.error error), last) ↔
      ∃ reason after, call before = some (.error reason, after) ∧
        error = .panicked reason.message ∧ last = Host.emit (.panicCaptured error) after := by
  rw [Host.capture_apply]
  constructor
  · intro captured
    rcases Option.map_eq_some_iff.mp captured with ⟨⟨reason | value, after⟩, called, same⟩
    · cases same
      exact ⟨reason, after, called, rfl, rfl⟩
    · cases same
  · rintro ⟨reason, after, called, rfl, rfl⟩
    rw [called]
    rfl

theorem Host.capture_eq_none_iff : Host.capture call before = none ↔ call before = none := by
  rw [Host.capture_apply, Option.map_eq_none_iff]

/-- A captured panic does not go any further. -/
theorem Host.capture_ne_error {reason : Panic} :
    Host.capture call before ≠ some (.error reason, last) := by
  rw [Host.capture_apply]
  rcases call before with _ | ⟨_ | value, after⟩ <;> simp

end Capture

namespace Graph

variable {σ V ρ : Type} [Host σ V]

/-- The world in which the start of a run has been reported. -/
def begun (limit : Option UInt64) (world : σ) : σ := Host.emit (.started limit) world

theorem bind_report {α : Type} (event : Event) (next : Call σ α) (world : σ) :
    (do Host.report event; next) world = next (Host.emit event world) :=
  Call.bind_of_ok rfl

variable [Equations ρ σ V V]

/-- Where room for the stack cannot be asked for, nothing is run and nothing is reported. -/
theorem runWith_of_no_room {options : RunOptions} (no_room : ¬ Machine.RoomFor options.stackCapacity)
    (graph : Graph σ V V ρ) :
    graph.runWith options = Call.panic "capacity overflow" := by
  unfold runWith runToEnd runWithin
  simp only [Machine.provided_of_no_room no_room]
  cases options.stepLimit <;> rfl

/-- A run to the end, which reports its start and its end, after room was taken for its stack. -/
theorem runToEnd_eq (graph : Graph σ V V ρ) (options : RunOptions) :
    graph.runToEnd options = (do
      Call.reserve Machine.continuationBytes options.stackCapacity.toNat
      Host.report (.started none)
      let (value, stats) ← (Machine.start graph).drive
      Host.report (.finished stats)
      return ⟨value, stats⟩) := by
  simp only [runToEnd, Machine.provided, Pending.withCapacity, bind_assoc, pure_bind]
  rfl

/-- A limited run, which reports its start and its end, after room was taken for its stack. -/
theorem runWithin_eq (graph : Graph σ V V ρ) (limit : UInt64) (options : RunOptions) :
    graph.runWithin limit options = (do
      Call.reserve Machine.continuationBytes options.stackCapacity.toNat
      Host.report (.started (some limit))
      let halt ← (Machine.start graph).driveWithin limit.toNat
      Host.report halt.event
      return halt.answer limit) := by
  simp only [runWithin, Machine.provided, Pending.withCapacity, bind_assoc, pure_bind]
  refine bind_congr fun _ => bind_congr fun _ => bind_congr fun halt => ?_
  cases halt <;> rfl

theorem room_for_default : Machine.RoomFor RunOptions.unbounded.stackCapacity := by decide

theorem run_eq (graph : Graph σ V V ρ) :
    graph.run = (do
      Host.report (.started none)
      let (value, stats) ← (Machine.start graph).drive
      Host.report (.finished stats)
      return value) := by
  rw [run, runToEnd, Machine.provided_of_room room_for_default, pure_bind]
  simp only [bind_assoc, pure_bind]

section RunToEnd

variable {graph : Graph σ V V ρ} {options : RunOptions} {world last : σ}

theorem runToEnd_of_no_room (no_room : ¬ Machine.RoomFor options.stackCapacity) :
    graph.runToEnd options world = some (.error (.text "capacity overflow"), world) := by
  rw [runToEnd, Machine.provided_of_no_room no_room]
  rfl

variable (room : Machine.RoomFor options.stackCapacity)

include room

theorem runToEnd_apply :
    graph.runToEnd options world =
      ((Machine.start graph).drive (begun none world)).bind fun
        | (.ok (value, stats), after) =>
          some (.ok ⟨value, stats⟩, Host.emit (.finished stats) after)
        | (.error reason, after) => some (.error reason, after) := by
  rw [runToEnd, Machine.provided_of_room room, pure_bind, bind_report, Call.bind_apply]
  congr 1
  funext ⟨ending, after⟩
  rcases ending with reason | ⟨value, stats⟩
  · rfl
  · rfl

theorem runToEnd_eq_ok_iff {value : V} {stats : RunStats} :
    graph.runToEnd options world = some (.ok ⟨value, stats⟩, last) ↔
      ∃ after, (Machine.start graph).drive (begun none world) = some (.ok (value, stats), after) ∧
        last = Host.emit (.finished stats) after := by
  rw [runToEnd_apply room]
  rcases (Machine.start graph).drive (begun none world) with _ | ⟨_ | ⟨found, size⟩, after⟩
  · simp
  · simp
  · simp only [Option.bind_some, Option.some.injEq, Prod.mk.injEq, Except.ok.injEq,
      Completed.mk.injEq]
    constructor
    · rintro ⟨⟨rfl, rfl⟩, rfl⟩
      exact ⟨after, ⟨⟨rfl, rfl⟩, rfl⟩, rfl⟩
    · rintro ⟨_, ⟨⟨rfl, rfl⟩, rfl⟩, rfl⟩
      exact ⟨⟨rfl, rfl⟩, rfl⟩

theorem runToEnd_eq_error_iff {reason : Panic} :
    graph.runToEnd options world = some (.error reason, last) ↔
      (Machine.start graph).drive (begun none world) = some (.error reason, last) := by
  rw [runToEnd_apply room]
  rcases (Machine.start graph).drive (begun none world) with _ | ⟨_ | ⟨found, size⟩, after⟩ <;> simp

theorem runToEnd_eq_none_iff :
    graph.runToEnd options world = none ↔
      (Machine.start graph).drive (begun none world) = none := by
  rw [runToEnd_apply room]
  rcases (Machine.start graph).drive (begun none world) with _ | ⟨_ | ⟨found, size⟩, after⟩ <;> simp

end RunToEnd

theorem runWithin_apply {options : RunOptions} (room : Machine.RoomFor options.stackCapacity)
    (graph : Graph σ V V ρ) (limit : UInt64) (world : σ) :
    graph.runWithin limit options world =
      ((Machine.start graph).driveWithin limit.toNat (begun (some limit) world)).bind fun
        | (.ok halt, after) => some (.ok (halt.answer limit), Host.emit halt.event after)
        | (.error reason, after) => some (.error reason, after) := by
  rw [runWithin, Machine.provided_of_room room, pure_bind, bind_report, Call.bind_apply]
  congr 1
  funext ⟨ending, after⟩
  rcases ending with reason | halt
  · rfl
  · cases halt <;> rfl

end Graph

end Deferral

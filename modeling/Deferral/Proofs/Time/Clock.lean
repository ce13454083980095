import Deferral.Host
import Deferral.Proofs.Call

/-!
# A clock that only waiting moves

What is computed takes no time. Only waiting moves the clock, straight to the moment that is waited
for, and a wait is never over before its moment has come. How long a wait of so many milliseconds
takes is said by `VirtualClock.span`: an ideal timer takes them as they are, and the clock of a
session cuts the longest ones short.
-/

namespace Deferral

/-- The clock of a world in which only waiting takes time. -/
class VirtualClock (σ : Type) {V : outParam Type} [Host σ V] where
  /-- How long a wait of so many milliseconds takes. -/
  span : Nat → Nat
  now_leave : ∀ (value : V) (world : σ), Host.now (Host.leave value world).2 = Host.now world
  now_take : ∀ place (world : σ), Host.now (Host.take place world).2 = Host.now world
  now_emit : ∀ event (world : σ), Host.now (Host.emit event world) = Host.now world
  now_beginTurn : ∀ allowance (world : σ),
    Host.now (Host.beginTurn allowance world) = Host.now world
  now_endWait : ∀ moment (world : σ), Host.now (Host.endWait moment world).2 = Host.now world
  now_waitUntil : ∀ moment (world : σ),
    Host.now (Host.waitUntil moment world) = max (Host.now world) moment
  deadline_eq : ∀ milliseconds (world : σ),
    Host.deadline milliseconds world = Host.now world + span milliseconds
  due_of_endWait : ∀ moment (world : σ),
    (Host.endWait moment world).1 = true → moment ≤ Host.now world

/-- How long waits take one after the other. -/
def VirtualClock.spans (σ : Type) {V : Type} [Host σ V] [VirtualClock σ] : List Nat → Nat
  | [] => 0
  | milliseconds :: others => span σ milliseconds + spans σ others

/-- A session cuts a wait short at its longest. -/
instance (ω V : Type) : VirtualClock (Session ω V) where
  span milliseconds := min milliseconds Session.longestWait
  now_leave _ _ := rfl
  now_take _ _ := rfl
  now_emit _ _ := rfl
  now_beginTurn _ _ := rfl
  now_endWait moment session := by
    simp only [Host.endWait, Session.endWait]
    split
    · rfl
    · split <;> rfl
  now_waitUntil _ _ := rfl
  deadline_eq _ _ := rfl
  due_of_endWait moment session granted := by
    simp only [Host.endWait, Session.endWait] at granted
    split at granted
    · cases granted
    · rename_i due
      exact Nat.not_lt.mp due

namespace Call

variable {σ V α β : Type}

/-- Some run of a call returns this value. -/
def CanReturn (call : Call σ α) (value : α) : Prop :=
  ∃ before after, call before = some (.ok value, after)

/-- Whatever a call does, it takes no time. -/
def TakesNoTime [Host σ V] (call : Call σ α) : Prop :=
  ∀ ⦃before ending after⦄, call before = some (ending, after) → Host.now after = Host.now before

theorem canReturn_of {call : Call σ α} {value : α} {before after : σ}
    (called : call before = some (.ok value, after)) : call.CanReturn value :=
  ⟨before, after, called⟩

theorem canReturn_pure {found value : α} (returns : (pure found : Call σ α).CanReturn value) :
    value = found := by
  rcases returns with ⟨before, after, called⟩
  cases called
  rfl

theorem canReturn_bind {call : Call σ α} {next : α → Call σ β} {result : β}
    (returns : (call >>= next).CanReturn result) :
    ∃ value, call.CanReturn value ∧ (next value).CanReturn result := by
  rcases returns with ⟨before, after, called⟩
  rcases bind_eq_ok_iff.mp called with ⟨value, between, first, second⟩
  exact ⟨value, ⟨before, between, first⟩, ⟨between, after, second⟩⟩

theorem canReturn_map {call : Call σ α} {function : α → β} {result : β}
    (returns : (function <$> call).CanReturn result) :
    ∃ value, call.CanReturn value ∧ function value = result := by
  rcases returns with ⟨before, after, called⟩
  rcases map_eq_ok_iff.mp called with ⟨value, returned, rfl⟩
  exact ⟨value, ⟨before, after, returned⟩, rfl⟩

namespace TakesNoTime

variable [Host σ V]

theorem pure (value : α) : (pure value : Call σ α).TakesNoTime := by
  intro before ending after called
  cases called
  rfl

theorem panic (message : String) : (Call.panic message : Call σ α).TakesNoTime := by
  intro before ending after called
  cases called
  rfl

theorem reserve (bytes count : Nat) : (Call.reserve bytes count : Call σ Unit).TakesNoTime := by
  unfold Call.reserve
  split
  · exact .pure _
  · exact .panic _

theorem bind {call : Call σ α} {next : α → Call σ β} (first : call.TakesNoTime)
    (second : ∀ value, (next value).TakesNoTime) : (call >>= next).TakesNoTime := by
  intro before ending after called
  rcases bind_eq_some_iff.mp called with
    ⟨reason, panicked, rfl⟩ | ⟨value, between, returned, called⟩
  · exact first panicked
  · exact (second value called).trans (first returned)

theorem map {call : Call σ α} (function : α → β) (keeps : call.TakesNoTime) :
    (function <$> call).TakesNoTime := by
  rw [map_eq_pure_bind]
  exact keeps.bind fun value => pure (function value)

theorem change {step : σ → α × σ} (keeps : ∀ world, Host.now (step world).2 = Host.now world) :
    (Call.change step).TakesNoTime := by
  intro before ending after called
  cases called
  exact keeps before

variable [VirtualClock σ]

theorem report (event : Event) : (Host.report event : Call σ Unit).TakesNoTime :=
  change fun world => VirtualClock.now_emit event world

theorem takeOnce (place : Nat) : (Host.takeOnce place : Call σ V).TakesNoTime := by
  apply bind (change fun world => VirtualClock.now_take place world)
  intro taken
  cases taken with
  | none => exact panic _
  | some value => exact pure value

theorem withUser {ω : Type} (step : ω → α × ω) :
    (Session.withUser step : Call (Session ω V) α).TakesNoTime := by
  intro before ending after called
  cases called
  rfl

end TakesNoTime

end Call

end Deferral

import Deferral.Proofs.Captured.Origin
import Deferral.Proofs.OneShot.Script

/-!
# Captured panics

A run that captures its panic is the run itself: it makes the same calls in the same order, and
where they panic it reports the panic and returns it as an error. What a failed run leaves behind is
the world of the panic and nothing else. A graph does not change when it is run, and whatever the
run had left in places of its own is out of reach of any later one. So whoever goes on to use the
graph, or a clone of it, cannot tell it from a copy that was made anew.
-/

namespace Deferral

namespace Deferred

section Clones

variable {ι κ : Type} {Base : ι → Type} {ω ρ ρ' : Type} {t : Ty ι} [DecidableEq ι]
  [Definitions Base ρ (TypedSession Base ω)] [Definitions Base ρ' (TypedSession Base ω)]

/-- There are no asynchronous computations around. -/
def noneAsync (which : Empty) : AsyncDeferred Base (TypedSession Base ω) Empty .unit :=
  which.elim

/-- Do one thing after the other with clones of a computation. All of them are the same graph. -/
def withClones (computation : Deferred Base (TypedSession Base ω) ρ t)
    (actions : List (Action ω κ Empty)) : Call (TypedSession Base ω) (List (Seen Base)) :=
  performAll (fun _ => computation) noneAsync actions .none

variable {raised : Panic → Prop} (replacement : Replacement raised Base ω ρ ρ' Empty Empty)
  {computation copy : Deferred Base (TypedSession Base ω) ρ t}
  {plain : Deferred Base (TypedSession Base ω) ρ' t}

theorem withClones_plain (made : replacement.sync computation plain)
    (actions : List (Action ω κ Empty)) :
    (computation.withClones actions).Alike raised Eq (plain.withClones actions) := by
  have asyncs : ∀ which, replacement.async (noneAsync which) (noneAsync which) := nofun
  exact (performAll_alike replacement (fun _ => made) asyncs actions .none).mono
    fun _ _ seen => seen.1

/-- Of two computations that are made in the same way nobody can tell the clones apart, in sessions
that differ in what was left behind. -/
theorem withClones_alike (made : replacement.sync computation plain)
    (made_again : replacement.sync copy plain) (actions : List (Action ω κ Empty)) :
    (computation.withClones actions).Alike raised Eq (copy.withClones actions) := by
  intro before before' same
  have alike := withClones_plain replacement made actions same
  have alike' := withClones_plain replacement made_again actions (.refl before')
  apply (alike.through alike').mono
  rintro seen after seen' after' ⟨⟨_, rfl, rfl⟩, same⟩
  exact ⟨rfl, same⟩

/-- To capture the panic of a run changes nothing else about it. There is a value just where the run
has it, with the same effects; there is an error just where the run panics, with the text of the
panic, and every effect made before is kept. The panic is that of a producer or of a continuation in
one of the visits, and there it may have come out of interpretations nested to any depth. In the
world that is left the computation can be used again: whatever is done with it or its clones, in
whatever order, is seen and done just as with a copy that is made in the same way and of which
nothing was ever run. -/
theorem tryRun_captures (computation : Deferred Base (TypedSession Base ω) ρ t) :
    (∀ before value after, computation.tryRun before = some (.ok (.ok value), after) ↔
      computation.run before = some (.ok value, after)) ∧
    (∀ before error last, computation.tryRun before = some (.ok (.error error), last) ↔
      ∃ message after, error = .panicked message ∧
        last = Host.emit (.panicCaptured (.panicked message)) after ∧
        (computation.run before = some (.error (.text message), after) ∨
          computation.run before = some (.error .unreadable, after) ∧ message = "Unknown panic")) ∧
    (∀ before, computation.tryRun before = none ↔ computation.run before = none) ∧
    (∀ before reason after, computation.tryRun before ≠ some (.error reason, after)) ∧
    (∀ before reason after, computation.run before = some (.error reason, after) ↔
      computation.VisitPanics before reason after ∨
        ∃ value, computation.graph.run before = some (.ok value, after) ∧ value.type ≠ t ∧
          reason = .text mismatch) ∧
    ∀ {ρ' : Type} [Definitions Base ρ' (TypedSession Base ω)] {raised : Panic → Prop}
      (replacement : Replacement raised Base ω ρ ρ' Empty Empty)
      (copy : Deferred Base (TypedSession Base ω) ρ t)
      (plain : Deferred Base (TypedSession Base ω) ρ' t),
      replacement.sync computation plain → replacement.sync copy plain →
      ∀ before ending after, computation.tryRun before = some (ending, after) →
      ∀ world, after.Same world → ∀ {κ : Type} (actions : List (Action ω κ Empty)),
        AnswersAlike raised (Alongside Eq) (computation.withClones actions after)
          (copy.withClones actions world) := by
  refine ⟨?_, ?_, ?_, ?_, ?_, ?_⟩
  · intro before value after
    exact Host.capture_eq_ok_iff
  · intro before error last
    rw [tryRun, Host.capture_eq_error_iff]
    constructor
    · rintro ⟨message | _, after, ran, rfl, rfl⟩
      · exact ⟨message, after, rfl, rfl, .inl ran⟩
      · exact ⟨_, after, rfl, rfl, .inr ⟨ran, rfl⟩⟩
    · rintro ⟨message, after, rfl, rfl, ran | ⟨ran, rfl⟩⟩
      · exact ⟨.text message, after, ran, rfl, rfl⟩
      · exact ⟨.unreadable, after, ran, rfl, rfl⟩
  · intro before
    exact Host.capture_eq_none_iff
  · intro before reason after
    exact Host.capture_ne_error
  · intro before reason after
    exact run_eq_error_iff
  · intro ρ' _ raised replacement copy plain made made_again before ending after _ world same κ
      actions
    exact withClones_alike replacement made made_again actions same

end Clones

end Deferred

section Sample

/-- Count up and return the count before. -/
def sampleCount : Call (TypedSession SampleBase Nat) Nat :=
  Session.withUser fun user => (user, user + 1)

/-- Return a value that is not three. -/
def sampleCheck (value : Nat) : Call (TypedSession SampleBase Nat) Nat :=
  if value = 3 then Call.panic "three" else return value

/-- Panics once the count is three, in a continuation. -/
def sampleFragile : SampleSync :=
  (.fromThunk sampleCount : SampleSync).map sampleCheck

/-- `sampleFragile` with a bind for the map. -/
def sampleFragileBound : SampleSync :=
  (.fromThunk sampleCount : SampleSync).flatMap fun value => do return .of (← sampleCheck value)

/-- Runs the fragile computation in a producer. -/
def sampleOuter : SampleSync :=
  (.fromThunk sampleFragile.run : SampleSync).map sampleStep

/-- `sampleOuter` with a bind for the map. -/
def sampleOuterBound : SampleSync :=
  (.fromThunk sampleFragileBound.run : SampleSync).flatMap fun value => do
    return .of (← sampleStep value)

/-- The inner sample and what replaces it. -/
inductive FragilePair : Pairing SampleBase Nat Empty Empty
  | count : FragilePair (.fromThunk sampleCount : SampleSync) (.fromThunk sampleCount : SampleSync)
  | fragile : FragilePair sampleFragile sampleFragileBound

/-- The outer sample, which runs the inner one, and what replaces it. -/
inductive OuterPair : Pairing SampleBase Nat Empty Empty
  | inner : OuterPair (.fromThunk sampleFragile.run : SampleSync)
      (.fromThunk sampleFragileBound.run : SampleSync)
  | outer : OuterPair sampleOuter sampleOuterBound

theorem notTwice_of_library (reason : Panic) (library : LibraryPanic reason) : NotTwice reason := by
  cases library <;> simp [NotTwice, Deferred.mismatch, Promise.mismatch]

theorem sampleCheck_alike (value : Nat) :
    (sampleCheck value).Alike NotTwice Eq (sampleCheck value) := by
  unfold sampleCheck
  split
  · exact .panic (by simp [NotTwice])
  · exact .pure rfl

/-- The inner sample is made as its replacement is, but for the map. -/
def fragileReplacement : Replacement NotTwice SampleBase Nat Empty Empty Empty Empty where
  sync := FragilePair
  async := fun _ _ _ => False
  sync_made := by
    rintro t first second (_ | _)
    · exact .fromThunk (.withUser _)
    · exact .map .count sampleCheck_alike
  async_made := nofun
  library_raised := notTwice_of_library

/-- The outer sample is made as its replacement is, since a run of the inner one is alike. -/
def outerReplacement : Replacement NotTwice SampleBase Nat Empty Empty Empty Empty where
  sync := OuterPair
  async := fun _ _ _ => False
  sync_made := by
    rintro t first second (_ | _)
    · exact .fromThunk (fragileReplacement.run .fragile)
    · exact .map .inner fun _ => .withUser _
  async_made := nofun
  library_raised := notTwice_of_library

/-- The panic of the continuation, at the count of three. -/
theorem sampleFragile_panics (events : Array Event) :
    sampleFragile.VisitPanics { Session.start 3 with events } (.text "three")
      { Session.start 4 with events := events.push (.started none) } :=
  Deferred.visitPanics_of_function rfl (.first (.first (.itself rfl)))

/-- It comes out of the producer that runs the fragile computation. -/
theorem sampleOuter_panics (events : Array Event) :
    sampleOuter.VisitPanics { Session.start 3 with events } (.text "three")
      { Session.start 4 with events := (events.push (.started none)).push (.started none) } :=
  Deferred.visitPanics_of_producer (Deferred.raises_run (sampleFragile_panics _))

/-- Runs of two clones by turns, with a captured panic and a limit among them. -/
def sampleRetries : List (Action Nat Bool Empty) :=
  [.run true, .tryRun false, .runWith true ⟨some 2, 0⟩, .run false]

/-- The same session with a value that somebody left behind. -/
def sampleLittered (session : TypedSession SampleBase Nat) : TypedSession SampleBase Nat :=
  { session with places := [(0, ⟨.base (), (7 : Nat)⟩)] }

theorem sampleLittered_same (session : TypedSession SampleBase Nat) :
    session.Same (sampleLittered session) := ⟨rfl, rfl, rfl, rfl⟩

/-- The sample fails, and can be used again, whatever else was left behind. -/
theorem sampleOuter_captured :
    ∃ last : TypedSession SampleBase Nat,
      sampleOuter.tryRun (.start 3) = some (.ok (.error (.panicked "three")), last) ∧
      last.user = 4 ∧
      AnswersAlike NotTwice (Alongside Eq) (sampleOuter.withClones sampleRetries last)
        (sampleOuter.withClones sampleRetries (sampleLittered last)) := by
  have captures := sampleOuter.tryRun_captures
  have ran := (captures.2.2.2.2.1 _ _ _).mpr (.inl (sampleOuter_panics #[]))
  have tried := (captures.2.1 _ _ _).mpr ⟨"three", _, rfl, rfl, .inl ran⟩
  refine ⟨_, tried, rfl, ?_⟩
  exact captures.2.2.2.2.2 outerReplacement sampleOuter sampleOuterBound .outer .outer _ _ _ tried _
    (sampleLittered_same _) sampleRetries

end Sample

end Deferral

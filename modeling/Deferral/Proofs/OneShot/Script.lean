import Deferral.Proofs.OneShot.Lockstep

/-!
# Any sequence of runs

Somebody who holds computations may run them, run them within a limit, begin asynchronous runs, poll
these in any order and give them up at any time, and do things of their own in between. A script is
a list of such actions. A run that panics, is stopped or is given up leaves the world as it is, and
the script goes on in that world.
-/

namespace Deferral

/-- What somebody who holds computations may do, with computations told apart by `κ` and
asynchronous ones by `μ`. -/
inductive Action (ω κ μ : Type) where
  | run (which : κ)
  | runWith (which : κ) (options : RunOptions)
  | tryRun (which : κ)
  | start (which : μ)
  | poll (number : Nat)
  /-- Give up a run. -/
  | drop (number : Nat)
  | turn (allowance : Option Nat)
  | wait (moment : Nat)
  /-- Work on one's own state. -/
  | act (step : ω → ω)

/-- What an action shows. -/
inductive Seen {ι : Type} (Base : ι → Type) where
  | value (value : Tagged Base)
  | completed (value : Tagged Base) (stats : RunStats)
  | failed (error : RunError)
  | panicked (reason : Panic)
  | pending (wake : Wake)
  | nothing

/-- The asynchronous runs that were begun, by their numbers. Those that have ended are gone. -/
structure Live (σ V ρ : Type) where
  begun : Nat
  future? : Nat → Option (Future σ V ρ)

namespace Live

variable {σ V ρ : Type}

/-- Before any future was begun. -/
def none : Live σ V ρ where
  begun := 0
  future? _ := Option.none

/-- Put a future in the place of a run, or remove it. -/
def put (live : Live σ V ρ) (number : Nat) (future? : Option (Future σ V ρ)) : Live σ V ρ :=
  { live with future? := fun other => if other = number then future? else live.future? other }

/-- Begin another future. It has the number of those begun before. -/
def begin (live : Live σ V ρ) (future : Future σ V ρ) : Live σ V ρ :=
  { live.put live.begun (some future) with begun := live.begun + 1 }

end Live

section Perform

variable {ι κ μ : Type} {Base : ι → Type} {ω ρ η : Type} [DecidableEq ι]
  [Definitions Base ρ (TypedSession Base ω)] [AsyncDefinitions Base η (TypedSession Base ω)]
  {type : κ → Ty ι} {asyncType : μ → Ty ι}

/-- Do something with the computations and with the runs that were begun. -/
def Action.perform (sync : ∀ which, Deferred Base (TypedSession Base ω) ρ (type which))
    (async : ∀ which, AsyncDeferred Base (TypedSession Base ω) η (asyncType which))
    (live : Live (TypedSession Base ω) (Tagged Base) η) :
    Action ω κ μ →
      Call (TypedSession Base ω) (Seen Base × Live (TypedSession Base ω) (Tagged Base) η)
  | .run which => do
    match ← (sync which).run.attempt with
    | .ok value => return (.value ⟨type which, value⟩, live)
    | .error reason => return (.panicked reason, live)
  | .runWith which options => do
    match ← ((sync which).runWith options).attempt with
    | .ok (.ok completed) =>
      return (.completed ⟨type which, completed.value⟩ completed.stats, live)
    | .ok (.error error) => return (.failed error, live)
    | .error reason => return (.panicked reason, live)
  | .tryRun which => do
    match ← (sync which).tryRun.attempt with
    | .ok (.ok value) => return (.value ⟨type which, value⟩, live)
    | .ok (.error error) => return (.failed error, live)
    | .error reason => return (.panicked reason, live)
  | .start which => return (.nothing, live.begin (async which).run.future)
  | .poll number =>
    match live.future? number with
    | none => return (.nothing, live)
    | some future => do
      match ← future.poll.attempt with
      | .ok (.ready value) => return (.value value, live.put number none)
      | .ok (.pending wake rest) => return (.pending wake, live.put number (some rest))
      | .error reason => return (.panicked reason, live.put number none)
  | .drop number => return (.nothing, live.put number none)
  | .turn allowance => do
    Host.turn allowance
    return (.nothing, live)
  | .wait moment => do
    Host.wait moment
    return (.nothing, live)
  | .act step => do
    Session.withUser fun user => ((), step user)
    return (.nothing, live)

/-- Do one thing after the other, and tell all that was seen. -/
def performAll (sync : ∀ which, Deferred Base (TypedSession Base ω) ρ (type which))
    (async : ∀ which, AsyncDeferred Base (TypedSession Base ω) η (asyncType which)) :
    List (Action ω κ μ) → Live (TypedSession Base ω) (Tagged Base) η →
      Call (TypedSession Base ω) (List (Seen Base))
  | [], _ => return []
  | action :: actions, live => do
    let (seen, live) ← action.perform sync async live
    return seen :: (← performAll sync async actions live)

end Perform

section Alike

variable {ι κ μ : Type} {Base : ι → Type} {ω ρ ρ' η η' : Type} [DecidableEq ι]
  [Definitions Base ρ (TypedSession Base ω)] [Definitions Base ρ' (TypedSession Base ω)]
  [AsyncDefinitions Base η (TypedSession Base ω)]
  [AsyncDefinitions Base η' (TypedSession Base ω)] {raised : Panic → Prop}

/-- Runs with the same numbers between which nobody can tell. -/
structure LiveAlike (raised : Panic → Prop) (live : Live (TypedSession Base ω) (Tagged Base) η)
    (live' : Live (TypedSession Base ω) (Tagged Base) η') : Prop where
  begun_eq : live.begun = live'.begun
  futures : ∀ number, Option.Rel (FuturesAlike raised) (live.future? number) (live'.future? number)

namespace LiveAlike

variable {live : Live (TypedSession Base ω) (Tagged Base) η}
  {live' : Live (TypedSession Base ω) (Tagged Base) η'}

theorem none : LiveAlike raised (.none : Live (TypedSession Base ω) (Tagged Base) η)
    (.none : Live (TypedSession Base ω) (Tagged Base) η') :=
  ⟨rfl, fun _ => .none⟩

theorem put (lives : LiveAlike raised live live') (number : Nat)
    {future? : Option (Future (TypedSession Base ω) (Tagged Base) η)}
    {future?' : Option (Future (TypedSession Base ω) (Tagged Base) η')}
    (futures : Option.Rel (FuturesAlike raised) future? future?') :
    LiveAlike raised (live.put number future?) (live'.put number future?') := by
  refine ⟨lives.begun_eq, fun other => ?_⟩
  simp only [Live.put]
  split
  · exact futures
  · exact lives.futures other

theorem begin (lives : LiveAlike raised live live')
    {future : Future (TypedSession Base ω) (Tagged Base) η}
    {future' : Future (TypedSession Base ω) (Tagged Base) η'}
    (futures : FuturesAlike raised future future') :
    LiveAlike raised (live.begin future) (live'.begin future') := by
  refine ⟨congrArg (· + 1) lives.begun_eq, ?_⟩
  have puts := lives.put live.begun (.some futures)
  rw [lives.begun_eq] at puts
  simp only [Live.begin, lives.begun_eq]
  exact puts.futures

end LiveAlike

/-- The same is seen, and a panic that is seen is one of those that are raised. The runs that are
left are alike. -/
structure PerformedAlike (raised : Panic → Prop)
    (performed : Seen Base × Live (TypedSession Base ω) (Tagged Base) η)
    (performed' : Seen Base × Live (TypedSession Base ω) (Tagged Base) η') : Prop where
  seen_eq : performed.1 = performed'.1
  panic_raised : ∀ reason, performed.1 = .panicked reason → raised reason
  lives : LiveAlike raised performed.2 performed'.2

section Replaced

variable (replacement : Replacement raised Base ω ρ ρ' η η') {type : κ → Ty ι}
  {asyncType : μ → Ty ι} {sync : ∀ which, Deferred Base (TypedSession Base ω) ρ (type which)}
  {sync' : ∀ which, Deferred Base (TypedSession Base ω) ρ' (type which)}
  {async : ∀ which, AsyncDeferred Base (TypedSession Base ω) η (asyncType which)}
  {async' : ∀ which, AsyncDeferred Base (TypedSession Base ω) η' (asyncType which)}
  (syncs : ∀ which, replacement.sync (sync which) (sync' which))
  (asyncs : ∀ which, replacement.async (async which) (async' which))
  {live : Live (TypedSession Base ω) (Tagged Base) η}
  {live' : Live (TypedSession Base ω) (Tagged Base) η'}

include replacement syncs asyncs

theorem perform_alike (action : Action ω κ μ) (lives : LiveAlike raised live live') :
    (action.perform sync async live).Alike raised (PerformedAlike raised)
      (action.perform sync' async' live') := by
  cases action with
  | run which =>
      refine (replacement.run (syncs which)).attempt.bind fun _ _ endings => ?_
      cases endings with
      | panicked reason_raised =>
          exact .pure ⟨rfl, fun _ same => by cases same; exact reason_raised, lives⟩
      | returned values =>
          cases values
          exact .pure ⟨rfl, nofun, lives⟩
  | runWith which options =>
      refine (replacement.runWith (syncs which) options).attempt.bind fun _ _ endings => ?_
      cases endings with
      | panicked reason_raised =>
          exact .pure ⟨rfl, fun _ same => by cases same; exact reason_raised, lives⟩
      | @returned ending _ values =>
          cases values
          cases ending <;> exact .pure ⟨rfl, nofun, lives⟩
  | tryRun which =>
      refine (replacement.tryRun (syncs which)).attempt.bind fun _ _ endings => ?_
      cases endings with
      | panicked reason_raised =>
          exact .pure ⟨rfl, fun _ same => by cases same; exact reason_raised, lives⟩
      | @returned ending _ values =>
          cases values
          cases ending <;> exact .pure ⟨rfl, nofun, lives⟩
  | start which =>
      exact .pure ⟨rfl, nofun, lives.begin (replacement.promises (asyncs which))⟩
  | poll number =>
      simp only [Action.perform]
      generalize found : live.future? number = future?
      generalize found' : live'.future? number = future?'
      have futures := lives.futures number
      rw [found, found'] at futures
      cases futures with
      | none => exact .pure ⟨rfl, nofun, lives⟩
      | some futures =>
          refine futures.poll.attempt.bind fun _ _ endings => ?_
          cases endings with
          | panicked reason_raised =>
              refine .pure ⟨rfl, fun _ same => ?_, lives.put number .none⟩
              cases same
              exact reason_raised
          | returned polls =>
              cases polls with
              | ready value => exact .pure ⟨rfl, nofun, lives.put number .none⟩
              | pending rests => exact .pure ⟨rfl, nofun, lives.put number (.some rests)⟩
  | drop number => exact .pure ⟨rfl, nofun, lives.put number .none⟩
  | turn allowance =>
      refine Call.Alike.bind (?_ : Call.Alike raised Eq _ _) fun _ _ _ => ?_
      · exact .change fun _ _ same => ⟨rfl, same.beginTurn allowance⟩
      · exact .pure ⟨rfl, nofun, lives⟩
  | wait moment =>
      refine Call.Alike.bind (?_ : Call.Alike raised Eq _ _) fun _ _ _ => ?_
      · exact .change fun _ _ same => ⟨rfl, same.waitUntil moment⟩
      · exact .pure ⟨rfl, nofun, lives⟩
  | act step =>
      exact (Call.Alike.withUser _).bind fun _ _ _ => .pure ⟨rfl, nofun, lives⟩

theorem performAll_alike (actions : List (Action ω κ μ)) (lives : LiveAlike raised live live') :
    (performAll sync async actions live).Alike raised
      (fun seen seen' => seen = seen' ∧ ∀ reason, .panicked reason ∈ seen → raised reason)
      (performAll sync' async' actions live') := by
  induction actions generalizing live live' with
  | nil => exact .pure ⟨rfl, nofun⟩
  | cons action actions ih =>
      refine (perform_alike replacement syncs asyncs action lives).bind ?_
      rintro ⟨seen, live⟩ ⟨_, live'⟩ ⟨rfl, panic_raised, lives⟩
      refine (ih lives).bind ?_
      rintro rest _ ⟨rfl, rest_raised⟩
      refine .pure ⟨rfl, fun reason mem => ?_⟩
      rcases List.mem_cons.mp mem with here | there
      · exact panic_raised reason here.symm
      · exact rest_raised reason there

end Replaced

/-- Nobody can tell a computation from the one in which every map is a bind that leads to a leaf
which can be visited any number of times, not by running it, nor by polling runs of it in any order,
however often and however a run ends. A one-shot leaf that is visited twice panics, and where no
function raises that panic itself it is never seen. -/
theorem Replacement.indistinguishable (replacement : Replacement raised Base ω ρ ρ' η η') :
    (∀ {t : Ty ι} (computation computation'), @replacement.sync t computation computation' →
      computation.run.Alike raised Eq computation'.run ∧
      (∀ options, (computation.runWith options).Alike raised Eq (computation'.runWith options)) ∧
      computation.tryRun.Alike raised Eq computation'.tryRun) ∧
    (∀ {t : Ty ι} (computation computation'), @replacement.async t computation computation' →
      PromisesAlike raised computation.run computation'.run) ∧
    ∀ {κ μ : Type} {type : κ → Ty ι} {asyncType : μ → Ty ι}
      (sync : ∀ which, Deferred Base (TypedSession Base ω) ρ (type which)) (sync')
      (async : ∀ which, AsyncDeferred Base (TypedSession Base ω) η (asyncType which)) (async'),
      (∀ which, replacement.sync (sync which) (sync' which)) →
      (∀ which, replacement.async (async which) (async' which)) →
      ∀ actions : List (Action ω κ μ),
        (performAll sync async actions .none).Alike raised
          (fun seen seen' => seen = seen' ∧ ∀ reason, .panicked reason ∈ seen → raised reason)
          (performAll sync' async' actions .none) := by
  refine ⟨fun _ _ pair => ?_, fun _ _ pair => replacement.promises pair, ?_⟩
  · exact ⟨replacement.run pair, replacement.runWith pair, replacement.tryRun pair⟩
  · intro κ μ type asyncType sync sync' async async' syncs asyncs actions
    exact performAll_alike replacement syncs asyncs actions .none

end Alike

section Sample

/-- There is one base type, that of numbers. -/
abbrev SampleBase : Unit → Type := fun _ => Nat

/-- A computation of a number. -/
abbrev SampleSync := Deferred SampleBase (TypedSession SampleBase Nat) Empty (.base ())

/-- An asynchronous computation of a number. -/
abbrev SampleAsync := AsyncDeferred SampleBase (TypedSession SampleBase Nat) Unit (.base ())

/-- Add the count of the session, which goes up by one. -/
def sampleStep (value : Nat) : Call (TypedSession SampleBase Nat) Nat :=
  Session.withUser fun user => (value + user, user + 1)

/-- The leaf with the value one. -/
def sampleFirst : Deferred SampleBase (TypedSession SampleBase Nat) Empty (.base ()) :=
  .of (1 : Nat)

/-- Suspends twice before it has its value. -/
def sampleWaiting : AsyncDeferred SampleBase (TypedSession SampleBase Nat) Unit (.base ()) :=
  .fromAsync (pure (.pause 2 (.after (sampleStep 1))))

/-- The one name of the sample stands for waiting. -/
instance : AsyncDefinitions SampleBase Unit (TypedSession SampleBase Nat) where
  type _ := .base ()
  node _ := .fromAsync (pure (.pause 2 (.after (sampleStep 1))))

/-- The name of an asynchronous computation. -/
def sampleNamed : AsyncDeferred SampleBase (TypedSession SampleBase Nat) Unit (.base ()) :=
  .named ()

/-- The step, by a map. -/
def sampleMapped : Deferred SampleBase (TypedSession SampleBase Nat) Empty (.base ()) :=
  sampleFirst.map sampleStep

/-- The step, by a bind that goes on with a leaf. -/
def sampleBound : Deferred SampleBase (TypedSession SampleBase Nat) Empty (.base ()) :=
  sampleFirst.flatMap fun value => do return .of (← sampleStep value)

/-- The step after the named computation, by a map. -/
def sampleNamedMapped : AsyncDeferred SampleBase (TypedSession SampleBase Nat) Unit (.base ()) :=
  sampleNamed.map sampleStep

/-- The step after the named computation, by a bind that goes on with a leaf. -/
def sampleNamedBound : AsyncDeferred SampleBase (TypedSession SampleBase Nat) Unit (.base ()) :=
  sampleNamed.flatMap fun value => do return .of (← sampleStep value)

/-- The leaf, and the step by a map or by a bind. -/
inductive SamplePair : Pairing SampleBase Nat Empty Empty
  | first : SamplePair sampleFirst sampleFirst
  | mapped : SamplePair sampleMapped sampleBound

/-- The name, and the step by a map or by a bind. -/
inductive AsyncSamplePair : AsyncPairing SampleBase Nat Unit Unit
  | named : AsyncSamplePair sampleNamed sampleNamed
  | mapped : AsyncSamplePair sampleNamedMapped sampleNamedBound

/-- Every panic but that of a one-shot leaf that is visited twice. -/
def NotTwice (reason : Panic) : Prop :=
  reason ≠ .text "A one-shot leaf is visited at most once"

theorem sampleWaiting_made (sync : Pairing SampleBase Nat Empty Empty)
    (async : AsyncPairing SampleBase Nat Unit Unit) :
    AsyncMade NotTwice sync async sampleWaiting sampleWaiting := by
  refine .fromAsync (.pure (FuturesAlike.pause 2 (.after ?_)))
  exact (tagged_alike (.withUser _)).bind fun _ _ same => .pure (same ▸ .ready _)

/-- The sample with maps is made as the one with binds is. -/
def sampleReplacement :
    Replacement NotTwice SampleBase Nat Empty Empty Unit Unit where
  sync := SamplePair
  async := AsyncSamplePair
  sync_made := by
    rintro t first second (_ | _)
    · exact .of _
    · exact .map .first fun _ => .withUser _
  async_made := by
    rintro t first second (_ | _)
    · refine .named ?_ ?_ (sampleWaiting_made _ _) <;> rfl
    · exact .map .named fun _ => .withUser _
  library_raised := by
    rintro _ (_ | _ | _) <;> simp [NotTwice, Deferred.mismatch, Promise.mismatch]

/-- Runs that are stopped, interleaved and given up. -/
def sampleScript : List (Action Nat Unit Unit) :=
  [.runWith () ⟨some 2, 0⟩, .run (), .start (), .start (), .poll 0, .poll 1, .drop 0, .poll 1]

theorem indistinguishable_sample :
    (performAll (fun _ => sampleMapped) (fun _ => sampleNamedMapped) sampleScript .none).Alike
      NotTwice (fun seen seen' => seen = seen' ∧ ∀ reason, .panicked reason ∈ seen →
        NotTwice reason)
      (performAll (fun _ => sampleBound) (fun _ => sampleNamedBound) sampleScript .none) :=
  sampleReplacement.indistinguishable.2.2 _ _ _ _ (fun _ => .mapped) (fun _ => .mapped) _

end Sample

end Deferral

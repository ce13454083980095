import Deferral.Proofs.Aligned.AsyncAssembly
import Deferral.Proofs.OneShot.Script

/-!
# Every value reaches a continuation of its type

A computation that is assembled by the combinators never fails to find a value of the type that it
looks for, neither in a continuation nor at the end of a run. For the machine and for the futures
the argument is the same: whatever is reached is aligned, and what is aligned hands on values that
are wanted.
-/

namespace Deferral

section WellTyped

variable {ι σ ρ η : Type} {Base : ι → Type} [DecidableEq ι] [Host σ (Tagged Base)]
  {raised : Panic → Prop} {t : Ty ι}

/-- Every run of a computation finds the types that it looks for. -/
structure Deferred.WellTyped [Definitions Base ρ σ] (typing : Typing Base σ (Tagged Base) ρ)
    (computation : Deferred Base σ ρ t) : Prop where
  aligned : ∀ before visits (machine : Machine σ (Tagged Base) ρ) world,
    Machine.Reaches visits (.start computation.graph) before machine world →
      machine.Aligned typing t world
  /-- What a leaf produces is what the continuations that wait take. -/
  produces : ∀ before visits (machine : Machine σ (Tagged Base) ρ) world produce value after,
    Machine.Reaches visits (.start computation.graph) before machine world →
      machine.current.shape = .leaf produce → produce world = some (.ok value, after) →
        typing.Stack value.type machine.pending.waiting t
  run_ends : ∀ before value after, computation.graph.run before = some (.ok value, after) →
    ∃ item, value = ⟨t, item⟩ ∧ computation.run before = some (.ok item, after)
  runWith_ends : ∀ options before completed after,
    computation.graph.runWith options before = some (.ok (.ok completed), after) →
      ∃ item, completed.value = ⟨t, item⟩ ∧
        computation.runWith options before = some (.ok (.ok ⟨item, completed.stats⟩), after)
  run_panics : computation.run.PanicsOnly typing.raised
  /-- A run with options may also panic for want of room, before anything is visited. -/
  runWith_panics : ∀ options, (computation.runWith options).PanicsOnly fun reason =>
    typing.raised reason ∨
      ¬ Machine.RoomFor options.stackCapacity ∧ reason = .text "capacity overflow"

/-- Every run of an asynchronous computation finds the types that it looks for, whoever polls it and
whatever happens between two polls. -/
structure AsyncDeferred.WellTyped [AsyncDefinitions Base η σ]
    (typing : Typing Base σ (Future σ (Tagged Base) η) η) (computation : AsyncDeferred Base σ η t) :
    Prop where
  aligned : ∀ breaks before (future : Future σ (Tagged Base) η) world,
    Future.Spans breaks computation.run.future before future world → future.Aligned typing t world
  /-- What a leaf is awaited for is what the continuations that wait take. -/
  produces : ∀ breaks before value
    (pending : Pending (Graph.Continuation σ (Future σ (Tagged Base) η) (Tagged Base) η)) world,
    Future.Spans breaks computation.run.future before (.await (.ready value) pending) world →
      typing.Stack value.type pending.waiting t
  run_ends : ∀ breaks before value after,
    Future.PollsTo breaks computation.run.future before (some (.ok (.ready value), after)) →
      ∃ item, value = ⟨t, item⟩ ∧ (Promise.received value : Call σ (t.Value Base)) = pure item
  poll_panics : ∀ breaks before reason after,
    Future.PollsTo breaks computation.run.future before (some (.error reason, after)) →
      typing.raised reason
  complete_panics : computation.run.complete.PanicsOnly typing.raised

theorem Deferred.Assembly.wellTyped [Definitions Base ρ σ]
    (assembly : Deferred.Assembly Base σ ρ raised)
    {computation : Deferred Base σ ρ t} (is_member : assembly.members computation) :
    computation.WellTyped assembly.typing := by
  have aligned : ∀ before visits (machine : Machine σ (Tagged Base) ρ) world,
      Machine.Reaches visits (.start computation.graph) before machine world →
        machine.Aligned assembly.typing t world := by
    intro before visits machine world reaches
    have started : (Machine.start computation.graph).Aligned assembly.typing t before :=
      Machine.aligned_start (Known.member is_member) before
    exact started.reaches assembly.sound reaches
  constructor
  case aligned => exact aligned
  case produces =>
    intro before visits machine world produce value after reaches shape_eq produced
    exact (aligned _ _ _ _ reaches).produces assembly.sound shape_eq produced
  case run_ends => exact fun _ _ _ ran => assembly.run_of_ran is_member ran
  case runWith_ends => exact fun _ _ _ _ ran => assembly.runWith_of_ran is_member ran
  case run_panics => exact assembly.run_panicsOnly is_member
  case runWith_panics => exact assembly.runWith_panicsOnly is_member

theorem AsyncDeferred.Assembly.wellTyped [AsyncDefinitions Base η σ]
    (assembly : AsyncDeferred.Assembly Base σ η raised) {computation : AsyncDeferred Base σ η t}
    (is_member : assembly.members computation) : computation.WellTyped assembly.typing := by
  have started : ∀ world, computation.run.future.Aligned assembly.typing t world :=
    Future.aligned_ofGraph (Known.member is_member)
  constructor
  case aligned =>
    intro breaks before future world spans
    exact (started before).spans assembly.closed spans
  case produces =>
    intro breaks before value pending world spans
    exact ((started before).spans assembly.closed spans).produced
  case run_ends =>
    intro breaks before value after polls
    have type_eq := (started before).type_of_polls assembly.closed polls
    rcases value with ⟨type, item⟩
    obtain rfl : type = t := type_eq
    exact ⟨item, rfl, Tagged.expect_mk _ _ item⟩
  case poll_panics =>
    intro breaks before reason after polls
    exact (started before).raised_of_polls assembly.closed polls
  case complete_panics =>
    intro before reason after ran
    rcases Call.bind_eq_some_iff.mp ran with
      ⟨_, panicked, same⟩ | ⟨value, between, completed, received⟩
    · cases same
      exact (Future.Aligned.complete assembly.closed started panicked).1 reason rfl
    · have type_eq := (Future.Aligned.complete assembly.closed started completed).2 value rfl
      exact absurd type_eq (Tagged.expect_eq_error_iff.mp received).1

/-- Whatever computations are assembled by the combinators, and whatever types they mix, the stack
of every run is aligned throughout. So no continuation ever gets a value of another type than it
takes, no run ends with one, and the panics of a run are all raised by the functions that it was
given, but for that of a stack for which there is no room. -/
theorem assembled_wellTyped [Definitions Base ρ σ] [AsyncDefinitions Base η σ]
    (assembly : Deferred.Assembly Base σ ρ raised)
    (asyncAssembly : AsyncDeferred.Assembly Base σ η raised) :
    (∀ {t : Ty ι} (computation : Deferred Base σ ρ t), assembly.members computation →
      computation.WellTyped assembly.typing) ∧
    ∀ {t : Ty ι} (computation : AsyncDeferred Base σ η t), asyncAssembly.members computation →
      computation.WellTyped asyncAssembly.typing :=
  ⟨fun _ is_member => assembly.wellTyped is_member,
    fun _ is_member => asyncAssembly.wellTyped is_member⟩

end WellTyped

section Sample

/-- Every panic but those of a value that has another type than the one that is looked for. -/
def NotMistyped (reason : Panic) : Prop :=
  reason ≠ .text Deferred.mismatch ∧ reason ≠ .text Promise.mismatch

/-- A list of the first value. -/
def sampleList : Deferred SampleBase (TypedSession SampleBase Nat) Empty (.list (.base ())) :=
  sampleFirst.map fun value => pure [value]

/-- Makes a list of a number and a number of the list. -/
def sampleLength : Deferred SampleBase (TypedSession SampleBase Nat) Empty (.base ()) :=
  sampleList.map fun items => pure (List.length items)

/-- Runs twice and counts the values. -/
def sampleRounds : AsyncDeferred SampleBase (TypedSession SampleBase Nat) Unit (.base ()) :=
  (sampleNamed.repeated 2).map fun items => pure (List.length items)

/-- A number, a list of it and the length of the list. -/
inductive SampleMember : Deferred.Family SampleBase (TypedSession SampleBase Nat) Empty
  | first : SampleMember sampleFirst
  | list : SampleMember sampleList
  | length : SampleMember sampleLength

/-- A name, its repetition, the number of rounds, and a lifted computation. -/
inductive AsyncSampleMember : AsyncDeferred.Family SampleBase (TypedSession SampleBase Nat) Unit
  | named : AsyncSampleMember sampleNamed
  | repeated : AsyncSampleMember (sampleNamed.repeated 2)
  | rounds : AsyncSampleMember sampleRounds
  | lifted : AsyncSampleMember (.fromDeferred sampleLength)

/-- The sample computations are assembled of each other. -/
def sampleAssembly :
    Deferred.Assembly SampleBase (TypedSession SampleBase Nat) Empty NotMistyped where
  members := SampleMember
  assembled := by
    rintro t computation (_ | _ | _)
    · exact .of _
    · exact .map .first fun _ => .pure _
    · exact .map .list fun _ => .pure _

theorem sampleWaiting_assembled :
    AsyncDeferred.Assembled NotMistyped AsyncSampleMember sampleWaiting := by
  refine .fromAsync (.pure _) fun before promise after promised => ?_
  cases promised
  refine .pause 2 (fun later => ?_) _
  refine .begin ((Deferred.tagged_panicsOnly (.withUser _)).bind fun _ => .pure _) ?_ later
  intro before next after called
  rcases Call.bind_eq_ok_iff.mp called with ⟨⟨type, item⟩, between, returned, answered⟩
  cases answered
  obtain rfl := Deferred.type_of_tagged returned
  exact .ready item _

/-- The asynchronous sample computations are assembled of each other and of the sample above. -/
def sampleAsyncAssembly :
    AsyncDeferred.Assembly SampleBase (TypedSession SampleBase Nat) Unit NotMistyped where
  members := AsyncSampleMember
  assembled := by
    rintro t computation (_ | _ | _ | _)
    · refine .named ?_ sampleWaiting_assembled
      rfl
    · exact .repeated .named 2 fun large => absurd large (by decide)
    · exact .map .repeated fun _ => .pure _
    · exact .fromDeferred sampleAssembly .length

/-- In its first round the sample waits for a list to count, and inside of that for a number to put
on the list. -/
theorem sample_wellTyped :
    sampleAssembly.members sampleLength ∧ sampleAsyncAssembly.members sampleRounds ∧
      sampleLength.run.PanicsOnly NotMistyped ∧ sampleRounds.run.complete.PanicsOnly NotMistyped ∧
      ∃ next pending world,
        Future.Spans [] sampleRounds.run.future (Session.start 0)
          (.await (.chain (.visit sampleNamed.graph .empty) next) pending) world ∧
        pending.waiting.length = 1 ∧
        (Future.await (.chain (.visit sampleNamed.graph .empty) next) pending).Aligned
          sampleAsyncAssembly.typing (.base ()) world := by
  have wellTyped := assembled_wellTyped sampleAssembly sampleAsyncAssembly
  have sync := wellTyped.1 sampleLength .length
  have async := wellTyped.2 sampleRounds .rounds
  refine ⟨.length, .rounds, sync.run_panics, async.complete_panics, ?_⟩
  have spans : Future.Spans [] sampleRounds.run.future (Session.start 0) _ _ :=
    .went (.went (.went (.start _ _) rfl rfl) rfl rfl) rfl rfl
  exact ⟨_, _, _, spans, rfl, async.aligned _ _ _ _ spans⟩

end Sample

end Deferral

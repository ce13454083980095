import Deferral.Proofs.Lifted.Lifting
import Deferral.Proofs.OneShot.Script

/-!
# Lifting is a morphism of monads

Lifting takes a leaf to a leaf and a bind to a bind, up to the reports of the interpretations that
are made inside. Which reports those are is told exactly, in every world. Where reports make no
difference, any way to lift a computation has the value, the effects and the panic of its run, in
the first poll.
-/

namespace Deferral

namespace AsyncDeferred

variable {ι σ ρ η : Type} {Base : ι → Type} [DecidableEq ι] [Host σ (Tagged Base)]
  [Definitions Base ρ σ] [AsyncDefinitions Base η σ]

/-- What a first poll makes of the value of a run. -/
def firstPoll {t : Ty ι} (call : Call σ (t.Value Base)) :
    Call σ (Poll (Tagged Base) (Future σ (Tagged Base) η)) := do
  return .ready ⟨t, ← call⟩

theorem poll_of_deaf (deaf : ∀ event (world : σ), Host.emit event world = world) {t : Ty ι}
    {computation : Deferred Base σ ρ t} {lifting : AsyncDeferred Base σ η t}
    (lifted : Lifted Eq computation lifting) :
    lifting.run.future.poll = firstPoll computation.run := by
  funext world
  have agrees := lifted.poll_agrees_run (.eq deaf) (rfl : world = world)
  generalize called : lifting.run.future.poll world = answer at agrees
  generalize ran : computation.run world = answer' at agrees
  cases agrees with
  | hangs => exact (Call.bind_of_none ran).symm
  | panicked worlds =>
      subst worlds
      exact (Call.bind_of_error ran).symm
  | returned worlds values =>
      subst worlds values
      rw [firstPoll, Call.bind_of_ok ran]
      rfl

/-- Lifting takes a leaf to a leaf and a bind to a bind. In every world the first poll of a lifted
computation makes the calls of its run, in the same order, and is ready where the run returns; a
bind of lifted parts makes the calls of the run of each part. They differ in what is reported: each
part is an interpretation of its own. In worlds where nobody listens the polls are therefore equal,
whatever the graphs do. In others this is so up to what was reported, for graphs that do not depend
on it, and then a computation may be lifted whole or in pieces of any size, however its binds are
nested. -/
theorem fromDeferred_morphism :
    (∀ {t : Ty ι} (value : t.Value Base),
      let lifting : AsyncDeferred Base σ η t := .fromDeferred (.of value : Deferred Base σ ρ t)
      let leaf : AsyncDeferred Base σ η t := .of value
      lifting.run.future.poll = (do
        Host.report (.started none)
        Host.report (.finished ⟨1, 0⟩)
        leaf.run.future.poll) ∧
      ∀ same, Inaudible same → FuturesAgree same lifting.run.future leaf.run.future) ∧
    (∀ {s t : Ty ι} (first : Deferred Base σ ρ s)
        (function : s.Value Base → Call σ (Deferred Base σ ρ t)),
      let whole : AsyncDeferred Base σ η t := .fromDeferred (first.flatMap function)
      let pieces : AsyncDeferred Base σ η t :=
        (fromDeferred first).flatMap fun value => fromDeferred <$> function value
      whole.run.future.poll = (do
        let value ← (first.flatMap function).run
        Host.report (.asyncFinished 0)
        return .ready ⟨t, value⟩) ∧
      pieces.run.future.poll = (do
        let fed ← first.run
        let next ← function fed
        let value ← next.run
        Host.report (.asyncFinished 1)
        return .ready ⟨t, value⟩) ∧
      (first.flatMap function).run = (do
        Host.report (.started none)
        let (fed, one) ← first.drive
        let next ← function fed
        let (value, two) ← (Machine.start next.graph).drive
        Host.report (.finished (one.bind two))
        value.expect Deferred.mismatch t) ∧
      ((∀ event (world : σ), Host.emit event world = world) →
        whole.run.future.poll = firstPoll (first.flatMap function).run ∧
        pieces.run.future.poll = firstPoll (first.flatMap function).run)) ∧
    (∀ same, Inaudible same → ∀ {t : Ty ι} (computation : Deferred Base σ ρ t)
      (lifting : AsyncDeferred Base σ η t), Lifted same computation lifting →
      FuturesAgree same (fromDeferred computation : AsyncDeferred Base σ η t).run.future
        lifting.run.future ∧
      ∀ before before', same before before' →
        Agreed same (fun polled value => polled = .ready ⟨t, value⟩)
          (lifting.run.future.poll before) (computation.run before')) ∧
    ((∀ event (world : σ), Host.emit event world = world) → ∀ {t : Ty ι}
      (computation : Deferred Base σ ρ t) (lifting : AsyncDeferred Base σ η t),
      Lifted Eq computation lifting → lifting.run.future.poll = firstPoll computation.run) := by
  refine ⟨?_, ?_, ?_, fun deaf _ _ _ => poll_of_deaf deaf⟩
  · intro t value lifting leaf
    have leaf_lifted : ∀ same, Lifted same (.of value : Deferred Base σ ρ t) leaf :=
      fun same => .fromThunk (.pure value)
    refine ⟨?_, fun same inaudible => ?_⟩
    · exact poll_fromDeferred_of value
    · exact Lifted.futuresAgree inaudible (.whole (leaf_lifted same).blind) (leaf_lifted same)
  · intro s t first function whole pieces
    refine ⟨poll_fromDeferred _, poll_flatMap_fromDeferred first function,
      Deferred.run_flatMap first function, fun deaf => ⟨?_, ?_⟩⟩
    · exact poll_of_deaf deaf (.whole (.eq _))
    · apply poll_of_deaf deaf
      exact .flatMap (.whole (.eq _)) (fun value => .eq _) fun value next _ _ _ => .whole (.eq _)
  · intro same inaudible t computation lifting lifted
    refine ⟨Lifted.futuresAgree inaudible (.whole lifted.blind) lifted, ?_⟩
    intro before before' worlds
    exact lifted.poll_agrees_run inaudible worlds

end AsyncDeferred

section Sample

/-- Sessions that differ at most in the events heard. -/
def Session.Unheard {ω V : Type} (first second : Session ω V) : Prop :=
  { first with events := #[] } = { second with events := #[] }

theorem Session.unheard_inaudible {ω V : Type} :
    Inaudible (Session.Unheard : Session ω V → Session ω V → Prop) where
  equivalence := ⟨fun _ => rfl, Eq.symm, Eq.trans⟩
  emit _ _ := rfl

theorem Session.withUser_blind {ω V α : Type} (step : ω → α × ω) :
    (Session.withUser step : Call (Session ω V) α).Blind Session.Unheard := by
  rintro ⟨user, clock, events, places, allowance⟩ ⟨_, _, events', _, _⟩ worlds
  cases worlds
  exact .returned rfl rfl

/-- Take a step and answer with a leaf. -/
def sampleNext (value : (Ty.base ()).Value SampleBase) :
    Call (TypedSession SampleBase Nat) SampleSync := do
  return .of (← sampleStep value)

/-- A leaf and two steps in a row. -/
def sampleChain : SampleSync :=
  (sampleFirst.flatMap sampleNext).flatMap sampleNext

/-- The same with each part lifted on its own. -/
def samplePieces : SampleAsync :=
  ((.of (1 : Nat) : SampleAsync).flatMap fun value => .fromDeferred <$> sampleNext value).flatMap
    fun value => .fromDeferred <$> sampleNext value

theorem sampleNext_blind (value : (Ty.base ()).Value SampleBase) :
    (sampleNext value).Blind Session.Unheard := by
  intro before before' worlds
  apply (Session.withUser_blind _ worlds).bind
  rintro result _ after after' rfl worlds
  exact .returned worlds rfl

theorem samplePieces_lifted : Lifted Session.Unheard sampleChain samplePieces := by
  have nexts : ∀ value next before after, sampleNext value before = some (.ok next, after) →
      Lifted Session.Unheard next (.fromDeferred next : SampleAsync) := by
    intro value next before after answered
    cases answered
    exact .whole (Deferred.meaning_of_blind _)
  exact .flatMap (.flatMap (.fromThunk (.pure _)) sampleNext_blind nexts) sampleNext_blind nexts

theorem meaning_flatMap_sampleNext {first : SampleSync} {value : Nat}
    {before between : TypedSession SampleBase Nat}
    (first_eq : first.meaning before = some (.ok value, between)) :
    (first.flatMap sampleNext).meaning before =
      some (.ok (Nat.add value between.user), { between with user := between.user + 1 }) := by
  have stepped : sampleNext value between =
    some (.ok (.of (Nat.add value between.user)), { between with user := between.user + 1 }) := rfl
  rw [Deferred.meaning_flatMap, Call.bind_of_ok first_eq, Call.bind_of_ok stepped]
  exact congrFun (Deferred.meaning_fromThunk _) _

/-- Lifted in pieces, the sample is ready in the first poll with the value of its run. -/
theorem samplePieces_morphism :
    Inaudible (Session.Unheard : TypedSession SampleBase Nat → _ → Prop) ∧
    Lifted Session.Unheard sampleChain samplePieces ∧
    FuturesAgree Session.Unheard (.fromDeferred sampleChain : SampleAsync).run.future
      samplePieces.run.future ∧
    ∃ after, samplePieces.run.future.poll (.start 3) =
      some (.ok (.ready ⟨.base (), (8 : Nat)⟩), after) ∧ after.user = 5 := by
  have inaudible : Inaudible (Session.Unheard : TypedSession SampleBase Nat → _ → Prop) :=
    Session.unheard_inaudible
  have morphism := AsyncDeferred.fromDeferred_morphism.2.2.1 _ inaudible sampleChain samplePieces
    samplePieces_lifted
  refine ⟨inaudible, samplePieces_lifted, morphism.1, ?_⟩
  have meant : sampleChain.meaning (.start 3) = some (.ok (8 : Nat), .start 5) := by
    have first : sampleFirst.meaning (.start 3) = some (.ok (1 : Nat), .start 3) :=
      congrFun (Deferred.meaning_fromThunk _) _
    exact meaning_flatMap_sampleNext (meaning_flatMap_sampleNext first)
  have agrees := samplePieces_lifted.poll_agrees_meaning inaudible
    (inaudible.equivalence.refl (.start 3))
  rw [meant] at agrees
  generalize samplePieces.run.future.poll (.start 3) = answer at agrees
  cases agrees with
  | returned worlds values =>
      subst values
      exact ⟨_, rfl, congrArg Session.user worlds⟩

end Sample

end Deferral

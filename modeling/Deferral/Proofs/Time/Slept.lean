import Deferral.Proofs.OneShot.Script
import Deferral.Proofs.Time.Combinators
import Deferral.Proofs.Time.Completed
import Deferral.Proofs.Time.Delayed

/-!
# A computation takes as long as it sleeps

The computations of a paced family are followed here by a clock that only waiting moves. What it
shows is the time of the first poll and the sleeps that are over by then, whoever polls the run and
however often. Nested runs and endless loops are no exception.
-/

namespace Deferral.AsyncDeferred

open Future (Stage)

section Family

variable {ι σ ρ : Type} {Base : ι → Type} {t : Ty ι} [DecidableEq ι] [Host σ (Tagged Base)]
  [VirtualClock σ] [AsyncDefinitions Base ρ σ] (family : PacedFamily Base σ ρ)
  {computation : AsyncDeferred Base σ ρ t} (member : family.built computation)

include family member

theorem timed_of_reaches {world : σ} {stage : Stage σ (Tagged Base) ρ}
    (reaches : (Stage.start computation.run.future world).Reaches stage) :
    stage.Timed (PacedGraph family.built) (Host.now world) :=
  (reaches.keeps_time family.closed (Stage.timed_start (.member member) world)).1

/-- A run takes no time but for its sleeps. Whatever is visited, nested runs included, is visited
when exactly the sleeps that are over have passed, and so is whatever else a run does while it does
not sleep. What comes after a delay therefore comes at least that much later, a run that ends has
taken as long as the sleeps it visited, and a run that is given up has done nothing that was not due
by then. -/
theorem takes_as_long_as_it_sleeps (world : σ) :
    let run : Future σ (Tagged Base) ρ := computation.run.future
    let start := Stage.start run world
    let began := Host.now world
    (∀ stage, start.Reaches stage → ∀ node, stage.future.Visits node →
      stage.asleep = none ∧ Host.now stage.world = began + stage.timeSlept) ∧
    (∀ stage, start.Reaches stage → stage.asleep = none →
      Host.now stage.world = began + stage.timeSlept) ∧
    (∀ stage later, start.Reaches stage → stage.Reaches later →
      ∀ {s : Ty ι} (delayed : AsyncDeferred Base σ ρ s) milliseconds,
        stage.future.Visits (delayed.delay milliseconds).graph →
        ∀ node, later.future.Visits node →
          (node = (delayed.delay milliseconds).graph ∨ node = AsyncGraph.sleep milliseconds) ∧
              later.slept = stage.slept ∨
            Host.now stage.world + VirtualClock.span σ milliseconds ≤ Host.now later.world) ∧
    (∀ before, Host.beginTurn (some turnAllowance) before = world →
      ∀ value after, run.complete before = some (.ok value, after) →
        ∃ last, start.Reaches last ∧ last.future = .ready value ∧ last.world = after ∧
          last.asleep = none ∧ Host.now after = began + last.timeSlept) ∧
    (∀ stage dropped, start.Reaches stage → stage.Reaches dropped → stage.asleep = none →
      began + stage.timeSlept ≤ Host.now dropped.world) ∧
    (∀ before, Host.beginTurn (some turnAllowance) before = world →
      ∀ milliseconds value? after,
        run.completeWithin milliseconds before = some (.ok value?, after) →
          ∃ last, start.Reaches last ∧ last.world = after ∧
            ∀ value, value? = some value → last.future = .ready value ∧ last.asleep = none) := by
  intro run start began
  have timed : ∀ stage, start.Reaches stage → stage.Timed (PacedGraph family.built) began :=
    fun stage reaches => timed_of_reaches family member reaches
  refine ⟨?_, ?_, ?_, ?_, ?_, ?_⟩
  · intro stage reaches node visits
    have awake := (timed stage reaches).awake_of_visits visits
    exact ⟨awake, (timed stage reaches).now_eq awake⟩
  · intro stage reaches awake
    exact (timed stage reaches).now_eq awake
  · intro stage later reaches onward s delayed milliseconds visits node later_visits
    exact onward.delayed family.closed (timed stage reaches) visits rfl rfl later_visits
  · rintro before rfl value after completed
    rcases Future.leads_of_complete completed [] none with ⟨slept, asleep, reaches⟩
    have last_timed := timed _ reaches
    have awake := last_timed.awake_of_ready rfl
    exact ⟨_, reaches, rfl, rfl, awake, last_timed.now_eq awake⟩
  · intro stage dropped reaches onward awake
    rw [← (timed stage reaches).now_eq awake]
    exact (onward.keeps_time family.closed (timed stage reaches)).2
  · rintro before rfl milliseconds value? after completed
    rcases Call.bind_eq_ok_iff.mp completed with ⟨now, between, asked, completed⟩
    cases asked
    rcases Future.leads_of_completeBy completed with ⟨last, last_eq, leads⟩
    rcases leads [] none with ⟨slept, asleep, reaches⟩
    refine ⟨_, reaches, rfl, fun value value_eq => ?_⟩
    have ready := last_eq value value_eq
    exact ⟨ready, (timed _ reaches).awake_of_ready ready⟩

end Family

section Sample

/-- Sleeps before it waits. -/
def sampleDelayed : AsyncDeferred SampleBase (TypedSession SampleBase Nat) Unit (.base ()) :=
  sampleNamed.delay 5

/-- A name, a delay of it, repetitions of the delay and the endless one. -/
inductive SampleBuilt : Family SampleBase (TypedSession SampleBase Nat) Unit
  | named : SampleBuilt sampleNamed
  | delayed : SampleBuilt sampleDelayed
  | repeated (count : Nat) : SampleBuilt (sampleDelayed.repeated count)
  | endless : SampleBuilt sampleDelayed.forever

theorem sampleWaiting_paced : Paced SampleBuilt sampleWaiting := by
  refine .fromAsync (.pure _) fun promise returned => ?_
  obtain rfl := Call.canReturn_pure returned
  refine .pause 2 (.begin ((tagged_takesNoTime (.withUser _)).bind fun _ => .pure _) ?_)
  intro next returned
  rcases Call.canReturn_bind returned with ⟨value, _, returned⟩
  obtain rfl := Call.canReturn_pure returned
  exact .ready value

/-- The sample computations are built of each other and take time only by their delays. -/
def sampleFamily : PacedFamily SampleBase (TypedSession SampleBase Nat) Unit where
  built := SampleBuilt
  paced := by
    rintro t computation (_ | _ | count | _)
    · refine .named ?_ sampleWaiting_paced
      rfl
    · exact .delay .named 5
    · exact .repeated .delayed count
    · exact .forever .delayed

/-- The sample sleeps in its first poll and waits in the two after that. -/
theorem sampleDelayed_completes : ∃ after,
    sampleDelayed.run.future.complete (Session.start 0) =
      some (.ok ⟨.base (), (1 : Nat)⟩, after) ∧ after.clock = 5 := by
  have asleep : sampleDelayed.run.future.complete (Session.start 0) = _ :=
    Future.complete_of_pending (Future.poll_eq_some_iff.mpr
      ⟨_, _, .step rfl rfl (.step rfl rfl (.start _ _)), .suspended rfl⟩) rfl
  have woken := asleep.trans (Future.complete_of_pending (Future.poll_eq_some_iff.mpr
    ⟨_, _, .step rfl rfl (.step rfl rfl (.step rfl rfl (.start _ _))), .suspended rfl⟩) rfl)
  have waited := woken.trans (Future.complete_of_pending (Future.poll_eq_some_iff.mpr
    ⟨_, _, .start _ _, .suspended rfl⟩) rfl)
  have ready := waited.trans (Future.complete_of_ready (Future.poll_eq_some_iff.mpr
    ⟨_, _, .step rfl rfl (.step rfl rfl (.step rfl rfl (.start _ _))), .ready _ _⟩))
  exact ⟨_, ready, rfl⟩

theorem sampleDelayed_takes_its_sleep : sampleFamily.built sampleDelayed ∧
    ∃ value last, sampleDelayed.run.future.complete (Session.start 0) =
      some (.ok value, last.world) ∧
      (Stage.start sampleDelayed.run.future
        (Host.beginTurn (some turnAllowance) (Session.start 0))).Reaches last ∧
      last.future = .ready value ∧ last.asleep = none ∧ last.timeSlept = 5 := by
  refine ⟨.delayed, ?_⟩
  rcases sampleDelayed_completes with ⟨after, completed, clock_eq⟩
  have timed := takes_as_long_as_it_sleeps sampleFamily .delayed
    (Host.beginTurn (some turnAllowance) (Session.start 0))
  rcases timed.2.2.2.1 _ rfl _ _ completed with ⟨last, reaches, ready, rfl, awake, now_eq⟩
  refine ⟨_, last, completed, reaches, ready, awake, ?_⟩
  rw [← clock_eq]
  exact (now_eq.trans (Nat.zero_add _)).symm

end Sample

end Deferral.AsyncDeferred

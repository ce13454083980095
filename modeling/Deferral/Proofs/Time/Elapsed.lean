import Mathlib.Logic.Relation
import Deferral.Proofs.Time.Paced

/-!
# What the clock shows during a run

A run is told here from stage to stage, with a record of its sleeps: those that are over, and the
one that it is in the middle of. The record is kept by looking at the leaves that are visited and
never at the clock. `Stage.Timed` says what the clock shows at each of these stages.
-/

namespace Deferral

variable {σ V ρ : Type} [Host σ V]

/-- What may have happened since a future was suspended: nothing yet, or a new turn begins in which
it will be polled again. The clock moves only if the future waits for it, and not past the moment
that it waits for. -/
inductive Wake.Passes : Wake → σ → σ → Prop
  | nothing (wake : Wake) (world : σ) : Passes wake world world
  | again (wake : Wake) (allowance : Option Nat) (world : σ) :
      Passes wake world (Host.beginTurn allowance world)
  | waited {moment earlier : Nat} (le : earlier ≤ moment) (allowance : Option Nat) (world : σ) :
      Passes (.at moment) world (Host.beginTurn allowance (Host.waitUntil earlier world))

namespace Wake.Passes

variable [VirtualClock σ] {wake : Wake} {before after : σ}

theorem now_le (passes : wake.Passes before after) : Host.now before ≤ Host.now after := by
  cases passes with
  | nothing => exact Nat.le_refl _
  | again => exact Nat.le_of_eq (VirtualClock.now_beginTurn _ _).symm
  | waited le =>
      rw [VirtualClock.now_beginTurn, VirtualClock.now_waitUntil]
      exact Nat.le_max_left _ _

theorem now_eq (passes : Wake.soon.Passes before after) : Host.now after = Host.now before := by
  cases passes with
  | nothing => rfl
  | again => exact VirtualClock.now_beginTurn _ _

theorem now_le_moment {moment : Nat} (passes : (Wake.at moment).Passes before after)
    (le : Host.now before ≤ moment) : Host.now after ≤ moment := by
  cases passes with
  | nothing => exact le
  | again =>
      rw [VirtualClock.now_beginTurn]
      exact le
  | waited earlier_le =>
      rw [VirtualClock.now_beginTurn, VirtualClock.now_waitUntil]
      exact Nat.max_le.mpr ⟨le, earlier_le⟩

end Wake.Passes

namespace Future

/-- A stage of a run, with the durations of the sleeps that are over, the last one first, and of the
one that the run is in the middle of. -/
structure Stage (σ V ρ : Type) where
  future : Future σ V ρ
  world : σ
  slept : List Nat
  asleep : Option Nat

namespace Stage

/-- No sleep has begun yet. -/
def start (future : Future σ V ρ) (world : σ) : Stage σ V ρ :=
  ⟨future, world, [], none⟩

section Moves

variable [Unital V] [Equations ρ σ (Future σ V ρ) V]

/-- One step of a run, or a break between two of its polls. A sleep begins with a visit of its leaf,
and what a run goes on with after that is the end of the sleep. -/
inductive Moves : Stage σ V ρ → Stage σ V ρ → Prop
  | works {future next : Future σ V ρ} {before after : σ} {slept : List Nat}
      (unfinished : future.value? = none)
      (wakeful : ∀ milliseconds, ¬ future.FallsAsleep milliseconds)
      (stepped : future.step before = some (.ok (.went next), after)) :
      Moves ⟨future, before, slept, none⟩ ⟨next, after, slept, none⟩
  | sleeps {future next : Future σ V ρ} {before after : σ} {slept : List Nat} {milliseconds : Nat}
      (falls : future.FallsAsleep milliseconds)
      (stepped : future.step before = some (.ok (.went next), after)) :
      Moves ⟨future, before, slept, none⟩ ⟨next, after, slept, some milliseconds⟩
  | wakes {future next : Future σ V ρ} {before after : σ} {slept : List Nat} {milliseconds : Nat}
      (stepped : future.step before = some (.ok (.went next), after)) :
      Moves ⟨future, before, slept, some milliseconds⟩ ⟨next, after, milliseconds :: slept, none⟩
  | waits {future rest : Future σ V ρ} {before left after : σ} {slept : List Nat}
      {asleep : Option Nat} {wake : Wake}
      (stepped : future.step before = some (.ok (.suspended wake rest), left))
      (passes : wake.Passes left after) :
      Moves ⟨future, before, slept, asleep⟩ ⟨rest, after, slept, asleep⟩

/-- From one stage of a run to a later one. -/
abbrev Reaches : Stage σ V ρ → Stage σ V ρ → Prop :=
  Relation.ReflTransGen Moves

end Moves

variable [VirtualClock σ]

/-- How long the sleeps that are over have taken. -/
def timeSlept (stage : Stage σ V ρ) : Nat :=
  VirtualClock.spans σ stage.slept

/-- What the clock shows at a stage of a run that began at a given time. Where the run is awake, its
sleeps are all the time that has passed. -/
inductive Timed (paced : AsyncGraph σ V ρ → Prop) (began : Nat) : Stage σ V ρ → Prop
  | awake {future : Future σ V ρ} {world : σ} {slept : List Nat} (future_awake : future.Awake paced)
      (now_eq : Host.now world = began + VirtualClock.spans σ slept) :
      Timed paced began ⟨future, world, slept, none⟩
  | asleep {future : Future σ V ρ} {world : σ} {slept : List Nat} {milliseconds : Nat}
      {fell : Nat} (fell_eq : fell = began + VirtualClock.spans σ slept)
      (future_asleep :
        future.Asleep paced (fell + VirtualClock.span σ milliseconds))
      (fell_le : fell ≤ Host.now world)
      (now_le : Host.now world ≤ fell + VirtualClock.span σ milliseconds) :
      Timed paced began ⟨future, world, slept, some milliseconds⟩

variable {paced : AsyncGraph σ V ρ → Prop} {began : Nat} {stage next : Stage σ V ρ}

theorem timed_start {graph : AsyncGraph σ V ρ} (graph_paced : paced graph) (world : σ) :
    (start (.ofGraph graph) world).Timed paced (Host.now world) :=
  .awake (.visit graph_paced nofun) rfl

theorem Timed.now_eq (timed : stage.Timed paced began) (awake : stage.asleep = none) :
    Host.now stage.world = began + stage.timeSlept := by
  rcases timed with ⟨_, now_eq⟩ | _
  · exact now_eq
  · cases awake

theorem Timed.awake_of_visits (timed : stage.Timed paced began) {node : AsyncGraph σ V ρ}
    (visits : stage.future.Visits node) : stage.asleep = none := by
  rcases timed with _ | ⟨_, asleep⟩
  · rfl
  · exact absurd visits asleep.not_visits

theorem Timed.awake_of_ready (timed : stage.Timed paced began) {value : V}
    (ready : stage.future = .ready value) : stage.asleep = none := by
  rcases timed with _ | ⟨_, asleep⟩
  · rfl
  · cases ready
    cases asleep

variable [Equations ρ σ (Future σ V ρ) V]

variable [Unital V] (closed : ∀ graph, paced graph → PacedNode paced graph.shape)

include closed

/-- A sleep that begins ends when its time has passed, everything else takes no time, and the clock
never goes back. -/
theorem Moves.keeps_time (moves : stage.Moves next) (timed : stage.Timed paced began) :
    next.Timed paced began ∧ Host.now stage.world ≤ Host.now next.world := by
  cases moves with
  | works _ wakeful stepped =>
      rcases timed with ⟨awake, now_eq⟩
      rcases awake.went closed wakeful stepped with ⟨unmoved, next_awake⟩
      exact ⟨.awake next_awake (unmoved.trans now_eq), Nat.le_of_eq unmoved.symm⟩
  | sleeps falls stepped =>
      rcases timed with ⟨awake, now_eq⟩
      rcases awake.fellAsleep falls stepped with ⟨unmoved, next_asleep⟩
      rw [← unmoved] at now_eq next_asleep
      have fallen := Timed.asleep now_eq next_asleep (Nat.le_refl _) (Nat.le_add_right _ _)
      exact ⟨fallen, Nat.le_of_eq unmoved.symm⟩
  | wakes stepped =>
      rcases timed with _ | ⟨fell_eq, asleep, fell_le, now_le⟩
      rcases asleep.woke stepped with ⟨due, unmoved, next_awake⟩
      refine ⟨.awake next_awake ?_, Nat.le_of_eq unmoved.symm⟩
      -- The run cannot have been woken early, and the clock has not been moved past its moment.
      rw [unmoved, Nat.le_antisymm now_le due, fell_eq]
      simp only [VirtualClock.spans]
      omega
  | waits stepped passes =>
      rcases timed with ⟨awake, now_eq⟩ | ⟨fell_eq, asleep, fell_le, now_le⟩
      · rcases awake.suspended stepped with ⟨rfl, unmoved, rest_awake⟩
        rw [← unmoved] at now_eq ⊢
        exact ⟨.awake rest_awake (passes.now_eq.trans now_eq), passes.now_le⟩
      · rcases asleep.suspended stepped with ⟨rfl, unmoved, rest_asleep⟩
        rw [← unmoved] at fell_le now_le ⊢
        have waited := passes.now_le_moment now_le
        exact ⟨.asleep fell_eq rest_asleep (Nat.le_trans fell_le passes.now_le) waited,
          passes.now_le⟩

theorem Reaches.keeps_time (reaches : stage.Reaches next) (timed : stage.Timed paced began) :
    next.Timed paced began ∧ Host.now stage.world ≤ Host.now next.world := by
  induction reaches with
  | refl => exact ⟨timed, Nat.le_refl _⟩
  | tail _ moves ih =>
      rcases ih with ⟨between_timed, earlier_le⟩
      rcases moves.keeps_time closed between_timed with ⟨next_timed, later_le⟩
      exact ⟨next_timed, Nat.le_trans earlier_le later_le⟩

end Stage

end Future

end Deferral

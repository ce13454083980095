import Deferral.Proofs.Run.Limit
import Deferral.Proofs.Run.Measured

/-!
# A run and the runs of its parts

`Graph.Finishes` is the run of a graph on its own: from a world it comes to a value, with
statistics, in another world. A bind finishes when its predecessor does, the call of its
continuation returns and the graph that this call answers with finishes, each from the world that
the one before left. The statistics of the whole are then made of those of the two runs.
-/

namespace Deferral

namespace RunStats

theorem eq_leaf_iff {stats : RunStats} :
    stats = leaf ↔ stats.steps = 1 ∧ stats.peakStackDepth = 0 := by
  rcases stats with ⟨steps, peak⟩
  exact RunStats.mk.injEq .. ▸ Iff.rfl

theorem eq_bind_iff {stats first second : RunStats} :
    stats = first.bind second ↔
      stats.steps = 1 + first.steps + second.steps ∧
        stats.peakStackDepth = max (1 + first.peakStackDepth) second.peakStackDepth := by
  rcases stats with ⟨steps, peak⟩
  exact RunStats.mk.injEq .. ▸ Iff.rfl

end RunStats

namespace Graph

variable {σ V ρ : Type} [Equations ρ σ V V]

/-- The run of a graph on its own has a value. -/
def Finishes (graph : Graph σ V V ρ) (before : σ) (value : V) (stats : RunStats) (after : σ) :
    Prop :=
  (Machine.start graph).drive before = some (.ok (value, stats), after)

variable {graph predecessor : Graph σ V V ρ} {before after : σ} {value : V} {stats : RunStats}

theorem finishes_iff_measured :
    graph.Finishes before value stats after ↔
      graph.measured before = some (.ok (value, stats), after) := by
  rw [Finishes, Machine.drive_start]

theorem finishes_of_leaf_iff {produce : Call σ V} (shape_eq : graph.shape = .leaf produce) :
    graph.Finishes before value stats after ↔
      produce before = some (.ok value, after) ∧ stats = .leaf := by
  rw [finishes_iff_measured, measured_of_leaf shape_eq, Call.bind_eq_ok_iff]
  constructor
  · rintro ⟨made, between, produced, returned⟩
    cases returned
    exact ⟨produced, rfl⟩
  · rintro ⟨produced, rfl⟩
    exact ⟨value, after, produced, rfl⟩

theorem finishes_of_bind_iff {resume : Continuation σ V V ρ}
    (shape_eq : graph.shape = .bind predecessor resume) :
    graph.Finishes before value stats after ↔
      ∃ fed first between next resumed second,
        predecessor.Finishes before fed first between ∧
        resume fed between = some (.ok next, resumed) ∧
        next.Finishes resumed value second after ∧ stats = first.bind second := by
  simp only [finishes_iff_measured]
  rw [measured_of_bind shape_eq]
  constructor
  · intro measured
    rcases Call.bind_eq_ok_iff.mp measured with ⟨⟨fed, first⟩, between, first_eq, measured⟩
    rcases Call.bind_eq_ok_iff.mp measured with ⟨next, resumed, called, measured⟩
    rcases Call.bind_eq_ok_iff.mp measured with ⟨⟨last, second⟩, ended, second_eq, measured⟩
    cases measured
    exact ⟨fed, first, between, next, resumed, second, first_eq, called, second_eq, rfl⟩
  · rintro ⟨fed, first, between, next, resumed, second, first_eq, called, second_eq, rfl⟩
    apply Call.bind_eq_ok_iff.mpr
    refine ⟨_, between, first_eq, Call.bind_eq_ok_iff.mpr ⟨next, resumed, called, ?_⟩⟩
    exact Call.bind_eq_ok_iff.mpr ⟨_, after, second_eq, rfl⟩

/-- A run finishes in one way. -/
theorem Finishes.unique {value' : V} {stats' : RunStats} {after' : σ}
    (finishes : graph.Finishes before value stats after)
    (finishes' : graph.Finishes before value' stats' after') :
    value = value' ∧ stats = stats' ∧ after = after' := by
  have same := finishes.symm.trans finishes'
  simp only [Option.some.injEq, Prod.mk.injEq, Except.ok.injEq] at same
  rcases same with ⟨⟨value_eq, stats_eq⟩, after_eq⟩
  exact ⟨value_eq, stats_eq, after_eq⟩

/-- A run that finishes does so in the visit whose number it reports. -/
theorem Finishes.ends (finishes : graph.Finishes before value stats after) :
    Machine.Ends stats.steps (Machine.start graph) before (.ok (value, stats))
      after := by
  rcases Machine.exists_ends_of_drive _ before _ finishes with ⟨visits, ends⟩
  have steps_eq : stats.steps = visits := by
    rw [ends.steps_eq]
    exact Nat.zero_add _
  rw [steps_eq]
  exact ends

variable [Host σ V]

section Limited

variable {limit capacity : UInt64} {world : σ} (room : Machine.RoomFor capacity)
  (finishes : graph.Finishes (begun (some limit) world) value stats after)

include room finishes

theorem Finishes.runWith_of_le (le : stats.steps ≤ limit.toNat) :
    graph.runWith ⟨some limit, capacity⟩ world =
      some (.ok (.ok ⟨value, stats⟩), Host.emit (.finished stats) after) := by
  have driven := Machine.driveWithin_of_ends finishes.ends le
  exact (runWithin_apply room graph limit world).trans (by rw [driven]; rfl)

theorem Finishes.stopped_of_lt (less : limit.toNat < stats.steps) :
    graph.Stopped limit capacity world :=
  stopped_of_ends room finishes.ends less

end Limited

/-- What a run without limit reports is what its graph finishes with. -/
theorem runWith_unlimited_eq_ok_iff (graph : Graph σ V V ρ) (capacity : UInt64) (world : σ)
    {last : σ} :
    graph.runWith ⟨none, capacity⟩ world = some (.ok (.ok ⟨value, stats⟩), last) ↔
      Machine.RoomFor capacity ∧ ∃ after, graph.Finishes (begun none world) value stats after ∧
        last = Host.emit (.finished stats) after := by
  have runWith_eq : graph.runWith ⟨none, capacity⟩ =
      Except.ok <$> graph.runToEnd ⟨none, capacity⟩ := (map_eq_pure_bind _ _).symm
  rw [runWith_eq, Call.map_eq_ok_iff]
  simp only [Except.ok.injEq, exists_eq_right]
  by_cases room : Machine.RoomFor capacity
  · rw [runToEnd_eq_ok_iff room, and_iff_right room]
    rfl
  · rw [runToEnd_of_no_room room]
    simp [room]

/-- The statistics of a run are exact, and are made of those of its parts run on their own. A leaf
is one visit and lets nothing wait. A bind is one visit more than the runs of its predecessor and of
the graph it goes on with, and while the predecessor runs one more continuation waits. -/
theorem finishes_by_parts (graph : Graph σ V V ρ) :
    (∀ capacity world value stats last,
      graph.runWith ⟨none, capacity⟩ world = some (.ok (.ok ⟨value, stats⟩), last) ↔
        Machine.RoomFor capacity ∧ ∃ after, graph.Finishes (begun none world) value stats after ∧
          last = Host.emit (.finished stats) after) ∧
    match graph.shape with
    | .leaf produce => ∀ before value stats after,
        graph.Finishes before value stats after ↔
          produce before = some (.ok value, after) ∧
            stats.steps = 1 ∧ stats.peakStackDepth = 0
    | .bind predecessor resume => ∀ before value stats after,
        graph.Finishes before value stats after ↔
          ∃ fed first between next resumed second,
            predecessor.Finishes before fed first between ∧
            resume fed between = some (.ok next, resumed) ∧
            next.Finishes resumed value second after ∧
            stats.steps = 1 + first.steps + second.steps ∧
            stats.peakStackDepth = max (1 + first.peakStackDepth) second.peakStackDepth := by
  refine ⟨fun capacity world value stats last => runWith_unlimited_eq_ok_iff graph _ _, ?_⟩
  rcases shape_eq : graph.shape with produce | ⟨predecessor, resume⟩
  · intro before value stats after
    rw [finishes_of_leaf_iff shape_eq, RunStats.eq_leaf_iff]
  · intro before value stats after
    simp only [finishes_of_bind_iff shape_eq, RunStats.eq_bind_iff]

end Graph

end Deferral

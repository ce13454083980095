import Deferral.Proofs.Run.Answers
import Deferral.Proofs.Run.Associativity
import Deferral.Typed.Deferred

/-!
# The loop of a typed run

`Deferred.drive` is the loop of a run with the value at its type: what happens between the report of
the start and that of the end. How it is made of the loops of the parts is an equation of calls, so
it says at once which effects are made in which order, where a panic leaves the run, when there is
no answer, and what the run costs.
-/

namespace Deferral

namespace Graph

variable {σ V ρ : Type} [Equations ρ σ V V]

theorem measured_fromThunk (produce : Call σ V) :
    (fromThunk produce : Graph σ V V ρ).measured = do return (← produce, .leaf) := by
  have shape_eq : (fromThunk produce : Graph σ V V ρ).shape = .leaf produce :=
    congrArg Shape.leaf (id_map produce)
  rw [measured_of_leaf shape_eq]

/-- A leaf that takes what was just left is visited at once, and then nothing is left behind. -/
theorem leaveOnce_measured [Host σ V] (value : V) :
    (leaveOnce value >>= fun graph : Graph σ V V ρ => graph.measured) = pure (value, .leaf) := by
  funext world
  have left : (leaveOnce value : Call σ (Graph σ V V ρ)) world =
      some (.ok (once (Host.leave value world).1), (Host.leave value world).2) := rfl
  rw [Call.bind_of_ok left, once, measured_fromThunk,
    Call.bind_of_ok (Host.takeOnce_leave value world)]

/-- A leaf is visited once. -/
theorem not_endless_of_leaf {graph : Graph σ V V ρ} {produce : Call σ V} {before : σ}
    (shape_eq : graph.shape = .leaf produce) :
    ¬ (Machine.start graph).Endless before := by
  intro endless
  rcases endless 1 with ⟨last, after, reaches⟩
  cases reaches with
  | visit moved _ =>
      have visits := (Machine.visits_iff _ _ _ _).mp moved
      cases visits with
      | descends shape_eq' => cases shape_eq.symm.trans shape_eq'
      | resumes _ _ popped _ => cases popped

end Graph

namespace Deferred

variable {ι σ ρ : Type} {Base : ι → Type} {s t : Ty ι} [DecidableEq ι] [Definitions Base ρ σ]

/-- The loop of a run, with the value at its type and the size of the run. -/
def drive (computation : Deferred Base σ ρ t) : Call σ (t.Value Base × RunStats) := do
  let (value, size) ← (Machine.start computation.graph).drive
  return (← value.expect mismatch t, size)

/-- Visit after visit is made, without end. -/
def Endless (computation : Deferred Base σ ρ t) (before : σ) : Prop :=
  (Machine.start computation.graph).Endless before

theorem drive_eq_measured (computation : Deferred Base σ ρ t) :
    computation.drive = (do
      let (value, size) ← computation.graph.measured
      return (← value.expect mismatch t, size)) := by
  rw [drive, Machine.drive_start]

theorem drive_fromThunk (produce : Call σ (t.Value Base)) :
    (fromThunk produce : Deferred Base σ ρ t).drive = do return (← produce, .leaf) := by
  rw [drive_eq_measured, fromThunk, Graph.measured_fromThunk, tagged]
  simp only [bind_assoc, pure_bind, Tagged.expect_mk]

theorem drive_of (value : t.Value Base) :
    (of value : Deferred Base σ ρ t).drive = pure (value, .leaf) := by
  rw [of, drive_fromThunk, pure_bind]

theorem start_of_drive (value : t.Value Base) :
    (Machine.start (of value : Deferred Base σ ρ t).graph).drive =
      pure (⟨t, value⟩, .leaf) := by
  rw [Machine.drive_start, of, fromThunk, Graph.measured_fromThunk, tagged, pure_bind, pure_bind]

/-- The loop of a bind is that of its first part and that of the part it goes on with. -/
theorem drive_flatMap (first : Deferred Base σ ρ s)
    (function : s.Value Base → Call σ (Deferred Base σ ρ t)) :
    (first.flatMap function).drive = (do
      let (fed, one) ← first.drive
      let next ← function fed
      let (value, two) ← next.drive
      return (value, one.bind two)) := by
  simp only [drive_eq_measured]
  rw [flatMap, Graph.measured_of_bind (Graph.shape_flatMap _ _)]
  simp only [checked, bind_assoc, pure_bind]

section Map

variable [Host σ (Tagged Base)]

theorem drive_map (first : Deferred Base σ ρ s)
    (function : s.Value Base → Call σ (t.Value Base)) :
    (first.map function).drive = (do
      let (fed, size) ← first.drive
      return (← function fed, size.bind .leaf)) := by
  rw [map, drive_flatMap]
  refine bind_congr fun (fed, size) => ?_
  simp only [tagged, bind_assoc, pure_bind, drive_eq_measured]
  refine bind_congr fun result => ?_
  rw [← bind_assoc, Graph.leaveOnce_measured, pure_bind, Tagged.expect_mk, pure_bind]

end Map

theorem finishes_iff_drive {computation : Deferred Base σ ρ t} {before after : σ}
    {value : t.Value Base} {size : RunStats} :
    computation.graph.Finishes before ⟨t, value⟩ size after ↔
      computation.drive before = some (.ok (value, size), after) := by
  rw [Graph.Finishes, drive, Call.bind_eq_ok_iff]
  constructor
  · intro driven
    refine ⟨_, after, driven, ?_⟩
    simp only [Tagged.expect_mk, pure_bind]
    rfl
  · rintro ⟨⟨found, stats⟩, between, driven, expected⟩
    rcases Call.bind_eq_ok_iff.mp expected with ⟨_, world, passed, returned⟩
    rcases Tagged.expect_eq_ok_iff.mp passed with ⟨rfl, rfl⟩
    cases returned
    exact driven

section Run

variable [Host σ (Tagged Base)]

theorem run_eq_drive (computation : Deferred Base σ ρ t) :
    computation.run = (do
      Host.report (.started none)
      let (value, size) ← (Machine.start computation.graph).drive
      Host.report (.finished size)
      value.expect mismatch t) := by
  rw [run, Graph.run_eq]
  simp only [bind_assoc, pure_bind]

/-- A bind is run by the loops of its two parts, between the reports of one run. -/
theorem run_flatMap (first : Deferred Base σ ρ s)
    (function : s.Value Base → Call σ (Deferred Base σ ρ t)) :
    (first.flatMap function).run = (do
      Host.report (.started none)
      let (fed, one) ← first.drive
      let next ← function fed
      let (value, two) ← (Machine.start next.graph).drive
      Host.report (.finished (one.bind two))
      value.expect mismatch t) := by
  rw [run_eq_drive, Machine.drive_start, flatMap,
    Graph.measured_of_bind (Graph.shape_flatMap _ _)]
  simp only [checked, drive, Machine.drive_start, bind_assoc, pure_bind]

theorem run_map (first : Deferred Base σ ρ s) (function : s.Value Base → Call σ (t.Value Base)) :
    (first.map function).run = (do
      Host.report (.started none)
      let (fed, size) ← first.drive
      let value ← function fed
      Host.report (.finished (size.bind .leaf))
      return value) := by
  rw [map, run_flatMap first]
  simp only [tagged, bind_assoc, pure_bind, Machine.drive_start]
  refine bind_congr fun _ => bind_congr fun (fed, size) => bind_congr fun result => ?_
  rw [← bind_assoc, Graph.leaveOnce_measured, pure_bind, Tagged.expect_mk]

variable {computation : Deferred Base σ ρ t} {limit capacity : UInt64} {world last : σ}
  {value : t.Value Base} {size : RunStats}

/-- A limited run has the value of the loop if the loop does not take more visits than allowed. -/
theorem runWith_eq_ok_iff :
    computation.runWith ⟨some limit, capacity⟩ world = some (.ok (.ok ⟨value, size⟩), last) ↔
      Machine.RoomFor capacity ∧
        ∃ after, computation.drive (Graph.begun (some limit) world) =
            some (.ok (value, size), after) ∧
          size.steps ≤ limit.toNat ∧ last = Host.emit (.finished size) after := by
  simp only [← finishes_iff_drive]
  constructor
  · intro ran
    have room : Machine.RoomFor capacity := by
      by_contra no_room
      have refused : computation.graph.runWith ⟨some limit, capacity⟩ = Call.panic _ :=
        Graph.runWith_of_no_room no_room computation.graph
      rw [runWith, refused] at ran
      cases ran
    refine ⟨room, ?_⟩
    rcases Call.bind_eq_ok_iff.mp ran with ⟨error | ⟨found, stats⟩, ended, graph_ran, returned⟩
    · cases returned
    · rcases Call.bind_eq_ok_iff.mp returned with ⟨_, between, expected, returned⟩
      cases returned
      rcases Tagged.expect_eq_ok_iff.mp expected with ⟨rfl, rfl⟩
      rcases Graph.ends_of_runWith graph_ran with ⟨after, ends, rfl⟩
      have finishes : computation.graph.Finishes _ _ _ _ := ends.drive_eq
      refine ⟨after, finishes, Nat.le_of_not_lt fun less => ?_, rfl⟩
      rcases finishes.stopped_of_lt room less with ⟨_, _, _, _, _, stopped⟩
      rw [graph_ran] at stopped
      cases stopped
  · rintro ⟨room, after, finishes, le, rfl⟩
    have ran := finishes.runWith_of_le room le
    rw [runWith, Call.bind_of_ok ran]
    simp only [Tagged.expect_mk, pure_bind]
    rfl

end Run

section Endless

variable {before : σ}

theorem not_endless_of_leaf {computation : Deferred Base σ ρ t} {produce : Call σ (Tagged Base)}
    (shape_eq : computation.graph.shape = .leaf produce) : ¬ computation.Endless before := by
  intro endless
  exact Graph.not_endless_of_leaf shape_eq endless

/-- A bind goes on without end when its first part does, or the part that it goes on with. -/
theorem endless_flatMap_iff {first : Deferred Base σ ρ s}
    {function : s.Value Base → Call σ (Deferred Base σ ρ t)} :
    (first.flatMap function).Endless before ↔
      first.Endless before ∨ ∃ fed size between next called,
        first.drive before = some (.ok (fed, size), between) ∧
        function fed between = some (.ok next, called) ∧ next.Endless called := by
  simp only [← finishes_iff_drive, Endless]
  rw [flatMap, Graph.endless_of_bind_iff (Graph.shape_flatMap _ _)]
  refine or_congr_right ?_
  constructor
  · rintro ⟨fed, size, between, next, called, finishes, resumed, endless⟩
    rcases Call.bind_eq_ok_iff.mp resumed with ⟨value, world, expected, resumed⟩
    rcases Call.bind_eq_ok_iff.mp resumed with ⟨answer, _, function_eq, returned⟩
    rcases Tagged.expect_eq_ok_iff.mp expected with ⟨rfl, rfl⟩
    cases returned
    exact ⟨value, size, _, answer, _, finishes, function_eq, endless⟩
  · rintro ⟨value, size, between, answer, called, finishes, function_eq, endless⟩
    refine ⟨_, size, between, answer.graph, called, finishes, ?_, endless⟩
    rw [checked, Tagged.expect_mk, pure_bind]
    exact Call.bind_of_ok function_eq

/-- What a map goes on with is a leaf. -/
theorem endless_map_iff [Host σ (Tagged Base)] {first : Deferred Base σ ρ s}
    {function : s.Value Base → Call σ (t.Value Base)} :
    (first.map function).Endless before ↔ first.Endless before := by
  rw [map, endless_flatMap_iff, or_iff_left_iff_imp]
  rintro ⟨fed, size, between, next, called, _, made, endless⟩
  rcases Call.bind_eq_ok_iff.mp made with ⟨result, _, _, made⟩
  rcases Call.bind_eq_ok_iff.mp made with ⟨leaf, _, left, returned⟩
  cases left
  cases returned
  exact absurd endless (not_endless_of_leaf rfl)

end Endless

end Deferred

end Deferral

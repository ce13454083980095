import Deferral.Proofs.Typed.Drive

/-!
# The identity laws and their cost

To feed a given value to a function is to call the function and to run what it answers. To feed the
value of a computation to a leaf is to run the computation. Either way a bind and a leaf are visited
besides. In the first case they are over before the answer of the function is run, so that its own
stack begins empty; in the second case the bind waits below everything that the computation lets
wait.
-/

namespace Deferral

namespace RunStats

theorem leaf_bind (size : RunStats) :
    leaf.bind size = ⟨size.steps + 2, max 1 size.peakStackDepth⟩ := by
  rw [eq_comm, eq_bind_iff]
  exact ⟨Nat.add_comm _ _, rfl⟩

theorem bind_leaf (size : RunStats) :
    size.bind leaf = ⟨size.steps + 2, size.peakStackDepth + 1⟩ := by
  rw [eq_comm, eq_bind_iff]
  simp only [leaf]
  omega

end RunStats

namespace Deferred

variable {ι σ ρ : Type} {Base : ι → Type} {s t : Ty ι} [DecidableEq ι] [Definitions Base ρ σ]

section Fed

variable (given : s.Value Base) (function : s.Value Base → Call σ (Deferred Base σ ρ t))

theorem drive_of_flatMap :
    ((of given).flatMap function).drive = (do
      let next ← function given
      let (value, size) ← next.drive
      return (value, ⟨size.steps + 2, max 1 size.peakStackDepth⟩)) := by
  simp only [drive_flatMap, drive_of, pure_bind, RunStats.leaf_bind]

theorem endless_of_flatMap_iff {before : σ} :
    ((of given).flatMap function).Endless before ↔
      ∃ next called, function given before = some (.ok next, called) ∧ next.Endless called := by
  rw [endless_flatMap_iff, or_iff_right (not_endless_of_leaf rfl)]
  simp only [drive_of, Call.pure_apply, Option.some.injEq, Prod.mk.injEq, Except.ok.injEq]
  constructor
  · rintro ⟨_, _, _, next, called, ⟨⟨rfl, rfl⟩, rfl⟩, function_eq, endless⟩
    exact ⟨next, called, function_eq, endless⟩
  · rintro ⟨next, called, function_eq, endless⟩
    exact ⟨given, .leaf, before, next, called, ⟨⟨rfl, rfl⟩, rfl⟩, function_eq, endless⟩

end Fed

section Passed

variable (computation : Deferred Base σ ρ t)

theorem drive_flatMap_of :
    (computation.flatMap fun value => return of value).drive = (do
      let (value, size) ← computation.drive
      return (value, ⟨size.steps + 2, size.peakStackDepth + 1⟩)) := by
  simp only [drive_flatMap, drive_of, pure_bind, RunStats.bind_leaf]

theorem endless_flatMap_of_iff {before : σ} :
    (computation.flatMap fun value => return of value).Endless before ↔
      computation.Endless before := by
  rw [endless_flatMap_iff, or_iff_left_iff_imp]
  rintro ⟨fed, size, between, next, called, _, returned, endless⟩
  cases returned
  exact absurd endless (not_endless_of_leaf rfl)

end Passed

variable [Host σ (Tagged Base)]

/-- A computation whose loop is a call that measures, with another size for each size that is
measured. The limit is compared with the other size. -/
theorem runWith_resized_eq_ok_iff {computation : Deferred Base σ ρ t} {limit capacity : UInt64}
    {call : Call σ (t.Value Base × RunStats)} (resize : RunStats → RunStats)
    (drive_eq : computation.drive = do
      let (value, size) ← call
      return (value, resize size))
    {world last : σ} {value : t.Value Base} {stats : RunStats} :
    computation.runWith ⟨some limit, capacity⟩ world = some (.ok (.ok ⟨value, stats⟩), last) ↔
      Machine.RoomFor capacity ∧
        ∃ size after, call (Graph.begun (some limit) world) = some (.ok (value, size), after) ∧
          (resize size).steps ≤ limit.toNat ∧ stats = resize size ∧
          last = Host.emit (.finished stats) after := by
  rw [runWith_eq_ok_iff, drive_eq]
  refine and_congr_right fun _ => ?_
  constructor
  · rintro ⟨after, driven, le, last_eq⟩
    rcases Call.bind_eq_ok_iff.mp driven with ⟨⟨found, size⟩, between, called, returned⟩
    cases returned
    exact ⟨size, after, called, le, rfl, last_eq⟩
  · rintro ⟨size, after, called, le, rfl, last_eq⟩
    exact ⟨after, Call.bind_eq_ok_iff.mpr ⟨_, after, called, rfl⟩, le, last_eq⟩

/-- Feeding a given value to a function, and feeding a value to a leaf, change nothing about a run
but its size. A run is told from its start to its report of the end, so that the equations say which
calls are made in which order, and that the whole panics or does not return just where these calls
do. Both wrapped computations take two visits more. A limit that the run does not exceed then lets
them finish, and no other does. -/
theorem flatMap_identities (given : s.Value Base)
    (function : s.Value Base → Call σ (Deferred Base σ ρ t)) (computation : Deferred Base σ ρ t) :
    let fed := (of given).flatMap function
    let passed := computation.flatMap fun value => return of value
    fed.run = (do
      Host.report (.started none)
      let next ← function given
      let (value, size) ← (Machine.start next.graph).drive
      Host.report (.finished ⟨size.steps + 2, max 1 size.peakStackDepth⟩)
      value.expect mismatch t) ∧
    fed.drive = (do
      let next ← function given
      let (value, size) ← next.drive
      return (value, ⟨size.steps + 2, max 1 size.peakStackDepth⟩)) ∧
    computation.run = (do
      Host.report (.started none)
      let (value, size) ← (Machine.start computation.graph).drive
      Host.report (.finished size)
      value.expect mismatch t) ∧
    passed.run = (do
      Host.report (.started none)
      let (value, size) ← computation.drive
      Host.report (.finished ⟨size.steps + 2, size.peakStackDepth + 1⟩)
      return value) ∧
    passed.drive = (do
      let (value, size) ← computation.drive
      return (value, ⟨size.steps + 2, size.peakStackDepth + 1⟩)) ∧
    (∀ before, fed.Endless before ↔
      ∃ next called, function given before = some (.ok next, called) ∧ next.Endless called) ∧
    (∀ before, passed.Endless before ↔ computation.Endless before) ∧
    (∀ limit capacity world value stats last,
      fed.runWith ⟨some limit, capacity⟩ world = some (.ok (.ok ⟨value, stats⟩), last) ↔
        Machine.RoomFor capacity ∧ ∃ next called size after,
          function given (Graph.begun (some limit) world) = some (.ok next, called) ∧
          next.drive called = some (.ok (value, size), after) ∧
          size.steps + 2 ≤ limit.toNat ∧
          stats = ⟨size.steps + 2, max 1 size.peakStackDepth⟩ ∧
          last = Host.emit (.finished stats) after) ∧
    ∀ limit capacity world value stats last,
      passed.runWith ⟨some limit, capacity⟩ world = some (.ok (.ok ⟨value, stats⟩), last) ↔
        Machine.RoomFor capacity ∧ ∃ size after,
          computation.drive (Graph.begun (some limit) world) =
            some (.ok (value, size), after) ∧
          size.steps + 2 ≤ limit.toNat ∧
          stats = ⟨size.steps + 2, size.peakStackDepth + 1⟩ ∧
          last = Host.emit (.finished stats) after := by
  intro fed passed
  refine ⟨?_, drive_of_flatMap given function, run_eq_drive computation, ?_,
    drive_flatMap_of computation, ?_, ?_, ?_, ?_⟩
  · rw [run_flatMap, drive_of]
    simp only [pure_bind, RunStats.leaf_bind]
  · rw [run_flatMap]
    simp only [pure_bind, start_of_drive, RunStats.bind_leaf, Tagged.expect_mk]
  · intro before
    exact endless_of_flatMap_iff given function
  · intro before
    exact endless_flatMap_of_iff computation
  · intro limit capacity world value stats last
    have drive_eq := drive_of_flatMap given function
    rw [← bind_assoc] at drive_eq
    rw [runWith_resized_eq_ok_iff (fun size => ⟨size.steps + 2, max 1 size.peakStackDepth⟩)
      drive_eq]
    refine and_congr_right fun _ => ?_
    constructor
    · rintro ⟨size, after, driven, rest⟩
      rcases Call.bind_eq_ok_iff.mp driven with ⟨next, called, function_eq, driven⟩
      exact ⟨next, called, size, after, function_eq, driven, rest⟩
    · rintro ⟨next, called, size, after, function_eq, driven, rest⟩
      exact ⟨size, after, Call.bind_eq_ok_iff.mpr ⟨next, called, function_eq, driven⟩, rest⟩
  · intro limit capacity world value stats last
    exact runWith_resized_eq_ok_iff (fun size => ⟨size.steps + 2, size.peakStackDepth + 1⟩)
      (drive_flatMap_of computation)

end Deferred

end Deferral

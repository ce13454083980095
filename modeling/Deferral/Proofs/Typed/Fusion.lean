import Deferral.Proofs.Typed.Identities

/-!
# Maps fuse

A chain of maps can be replaced by one map with the composed function. While the computation runs,
the chain has all its maps pending, and then visits one leaf that was just made after each function;
with one map this is done once. So the two differ in their size alone: each map costs the visit of a
bind and that of a leaf, and one place on the stack.
-/

namespace Deferral

/-- One or more functions, each of which takes what the one before returns. -/
inductive Functions {ι : Type} (Base : ι → Type) (σ : Type) : Ty ι → Ty ι → Type
  | last {s t : Ty ι} (function : s.Value Base → Call σ (t.Value Base)) : Functions Base σ s t
  | next {r s t : Ty ι} (function : r.Value Base → Call σ (s.Value Base))
      (rest : Functions Base σ s t) : Functions Base σ r t

namespace Functions

variable {ι σ : Type} {Base : ι → Type} {s t : Ty ι}

/-- The number of functions. -/
def length {s t : Ty ι} : Functions Base σ s t → Nat
  | last _ => 1
  | next _ rest => rest.length + 1

/-- The functions applied one after the other. -/
def compose {s t : Ty ι} : Functions Base σ s t → s.Value Base → Call σ (t.Value Base)
  | last function, value => function value
  | next function rest, value => do rest.compose (← function value)

/-- The size of a run with a map for each function. -/
def mappedSize (functions : Functions Base σ s t) (size : RunStats) : RunStats where
  steps := size.steps + 2 * functions.length
  peakStackDepth := size.peakStackDepth + functions.length

theorem mappedSize_last (function : s.Value Base → Call σ (t.Value Base)) (size : RunStats) :
    (last function).mappedSize size = size.bind .leaf := by
  rw [RunStats.bind_leaf]
  rfl

theorem mappedSize_next {r : Ty ι} (function : r.Value Base → Call σ (s.Value Base))
    (rest : Functions Base σ s t) (size : RunStats) :
    (next function rest).mappedSize size = rest.mappedSize (size.bind .leaf) := by
  rw [RunStats.bind_leaf, mappedSize, mappedSize, RunStats.mk.injEq]
  simp only [length]
  omega

end Functions

namespace Deferred

variable {ι σ ρ : Type} {Base : ι → Type} [DecidableEq ι] [Host σ (Tagged Base)]

/-- A map for each function, the first one innermost. -/
def mapAll {s t : Ty ι} (computation : Deferred Base σ ρ s) :
    Functions Base σ s t → Deferred Base σ ρ t
  | .last function => computation.map function
  | .next function rest => (computation.map function).mapAll rest

variable [Definitions Base ρ σ] {s t : Ty ι}

theorem drive_mapAll (computation : Deferred Base σ ρ s) (functions : Functions Base σ s t) :
    (computation.mapAll functions).drive = (do
      let (given, size) ← computation.drive
      return (← functions.compose given, functions.mappedSize size)) := by
  induction functions with
  | last function =>
      simp only [mapAll, drive_map, Functions.compose, Functions.mappedSize_last]
  | next function rest ih =>
      simp only [mapAll, ih, drive_map, Functions.compose, Functions.mappedSize_next, bind_assoc,
        pure_bind]

theorem run_mapAll (computation : Deferred Base σ ρ s) (functions : Functions Base σ s t) :
    (computation.mapAll functions).run = (do
      Host.report (.started none)
      let (given, size) ← computation.drive
      let value ← functions.compose given
      Host.report (.finished (functions.mappedSize size))
      return value) := by
  induction functions with
  | last function =>
      simp only [mapAll, run_map, Functions.compose, Functions.mappedSize_last]
  | next function rest ih =>
      simp only [mapAll, ih, drive_map, Functions.compose, Functions.mappedSize_next, bind_assoc,
        pure_bind]

theorem endless_mapAll_iff {computation : Deferred Base σ ρ s} {functions : Functions Base σ s t}
    {before : σ} : (computation.mapAll functions).Endless before ↔ computation.Endless before := by
  induction functions with
  | last function => exact endless_map_iff
  | next function rest ih => exact ih.trans endless_map_iff

/-- A chain of maps and one map with the composed function make the same calls in the same order. So
they have the same value, effects, panic and divergence: where a function in the middle panics, what
was done before it is done and nothing else. With `n` functions the chain takes `2 * n` visits more
than the computation on its own and lets `n` continuations more wait; the fused map takes two visits
more and lets one continuation more wait. -/
theorem maps_fuse (computation : Deferred Base σ ρ s) (functions : Functions Base σ s t) :
    let chain := computation.mapAll functions
    let fused := computation.map functions.compose
    let n := functions.length
    1 ≤ n ∧
    chain.run = (do
      Host.report (.started none)
      let (given, size) ← computation.drive
      let value ← functions.compose given
      Host.report (.finished ⟨size.steps + 2 * n, size.peakStackDepth + n⟩)
      return value) ∧
    fused.run = (do
      Host.report (.started none)
      let (given, size) ← computation.drive
      let value ← functions.compose given
      Host.report (.finished ⟨size.steps + 2, size.peakStackDepth + 1⟩)
      return value) ∧
    chain.drive = (do
      let (given, size) ← computation.drive
      let value ← functions.compose given
      return (value, ⟨size.steps + 2 * n, size.peakStackDepth + n⟩)) ∧
    fused.drive = (do
      let (given, size) ← computation.drive
      let value ← functions.compose given
      return (value, ⟨size.steps + 2, size.peakStackDepth + 1⟩)) ∧
    Prod.fst <$> chain.drive = Prod.fst <$> fused.drive ∧
    ∀ before, (chain.Endless before ↔ computation.Endless before) ∧
      (fused.Endless before ↔ computation.Endless before) := by
  intro chain fused n
  have chain_drive : chain.drive = _ := drive_mapAll computation functions
  have fused_drive : fused.drive = _ := drive_map computation functions.compose
  have fused_run : fused.run = _ := run_map computation functions.compose
  simp only [RunStats.bind_leaf] at fused_drive fused_run
  refine ⟨?_, run_mapAll computation functions, fused_run, chain_drive, fused_drive, ?_, ?_⟩
  · cases functions <;> exact Nat.succ_le_succ (Nat.zero_le _)
  · rw [chain_drive, fused_drive]
    simp only [map_eq_pure_bind, bind_assoc, pure_bind]
  · intro before
    exact ⟨endless_mapAll_iff, endless_map_iff⟩

end Deferred

end Deferral

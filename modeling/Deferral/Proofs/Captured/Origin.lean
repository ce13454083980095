import Deferral.Proofs.Run.Halts
import Deferral.Typed.Deferred

/-!
# Where a panic comes from

A panic leaves a call that raises it, every call that this one is a part of, and every
interpretation in one of whose visits such a call is made. `Raises` is the way of a panic from where
it is raised to where it is seen, through interpretations nested to any depth. Nothing on this way
changes the reason or does anything further, so the world in which the panic is seen is the one in
which it was raised.
-/

namespace Deferral

variable {σ V : Type} [Host σ V]

/-- A panic leaves a call, in the given world. -/
inductive Raises : {α : Type} → Call σ α → σ → Panic → σ → Prop
  | itself {α : Type} {call : Call σ α} {before after : σ} {reason : Panic}
      (panicked : call before = some (.error reason, after)) : Raises call before reason after
  | first {α β : Type} {call : Call σ α} {next : α → Call σ β} {before after : σ} {reason : Panic}
      (raises : Raises call before reason after) : Raises (call >>= next) before reason after
  | later {α β : Type} {call : Call σ α} {next : α → Call σ β} {before between after : σ}
      {value : α} {reason : Panic} (called : call before = some (.ok value, between))
      (raises : Raises (next value) between reason after) :
      Raises (call >>= next) before reason after
  /-- A visit of an interpretation calls the producer of a leaf and then the continuation that waits
  for its value. -/
  | visit {ρ : Type} [Equations ρ σ V V] {graph : Graph σ V V ρ} {options : RunOptions}
      {visits : Nat} {last : Machine σ V ρ} {before between after : σ} {reason : Panic}
      (reaches : Machine.Reaches visits (Machine.start graph)
        (Graph.begun options.stepLimit before) last between)
      (allows : options.Allows visits) (raises : Raises last.visit between reason after) :
      Raises (graph.interpret options) before reason after

/-- Wherever a panic comes from, the call panics with this reason, in the world of the panic. -/
theorem Raises.panics {α : Type} {call : Call σ α} {before after : σ} {reason : Panic}
    (raises : Raises call before reason after) : call before = some (.error reason, after) := by
  induction raises with
  | itself panicked => exact panicked
  | first _ ih => exact Call.bind_of_error ih
  | later called _ ih =>
      rw [Call.bind_of_ok called]
      exact ih
  | visit reaches allows _ ih =>
      exact Graph.interpret_eq_some_iff.mpr ⟨_, .panics reaches allows ih, rfl⟩

namespace Graph

variable {ρ : Type} [Equations ρ σ V V] {graph : Graph σ V V ρ} {before after : σ} {reason : Panic}

/-- A panic leaves a run: it was raised in the producer of a leaf that the run visits, or in the
continuation that waited for its value. -/
inductive RunPanics (graph : Graph σ V V ρ) (before : σ) (reason : Panic) (after : σ) : Prop
  | producer {visits : Nat} {last : Machine σ V ρ} {produce : Call σ V} {between : σ}
      (reaches : Machine.Reaches visits
        (Machine.start graph) (begun none before)
        last between)
      (shape_eq : last.current.shape = .leaf produce)
      (raises : Raises produce between reason after)
  | continuation {visits : Nat} {last : Machine σ V ρ} {produce : Call σ V}
      {resume : Continuation σ V V ρ} {rest : Pending (Continuation σ V V ρ)}
      {between produced : σ} {value : V}
      (reaches : Machine.Reaches visits
        (Machine.start graph) (begun none before)
        last between)
      (shape_eq : last.current.shape = .leaf produce)
      (value_eq : produce between = some (.ok value, produced))
      (popped : last.pending.pop? = some (resume, rest))
      (raises : Raises (resume value) produced reason after)

/-- A run that a panic leaves is a call that the panic leaves, so this may happen inside of another
run, and so on. -/
theorem RunPanics.raises (panics : graph.RunPanics before reason after) :
    Raises graph.run before reason after := by
  have allows : ∀ visits, RunOptions.unbounded.Allows visits := RunOptions.allows_of_none rfl
  rw [run_eq_interpret]
  apply Raises.first
  cases panics with
  | producer reaches shape_eq raises =>
      refine .visit reaches (allows _) ?_
      rw [Machine.visit_of_leaf shape_eq]
      exact .first raises
  | continuation reaches shape_eq value_eq popped raises =>
      refine .visit reaches (allows _) ?_
      rw [Machine.visit_of_leaf shape_eq, popped]
      exact .later value_eq (.first raises)

theorem run_eq_error_iff_panics :
    graph.run before = some (.error reason, after) ↔ graph.RunPanics before reason after := by
  constructor
  · intro ran
    cases run_eq_error_iff.mp ran with
    | panics reaches _ panicked =>
        have visits := (Machine.visits_iff _ _ _ _).mp panicked
        cases visits with
        | producerPanics shape_eq produced => exact .producer reaches shape_eq (.itself produced)
        | continuationPanics shape_eq produced popped resumed =>
            exact .continuation reaches shape_eq produced popped (.itself resumed)
  · intro panics
    exact panics.raises.panics

end Graph

namespace Deferred

variable {ι σ ρ : Type} {Base : ι → Type} {t : Ty ι} [DecidableEq ι] [Host σ (Tagged Base)]
  [Definitions Base ρ σ]

/-- A panic leaves a visit of a run. -/
def VisitPanics (computation : Deferred Base σ ρ t) (before : σ) (reason : Panic) (after : σ) :
    Prop :=
  computation.graph.RunPanics before reason after

/-- The only panic of a run that leaves none of its visits is that of a graph whose value is of
another type than it should be. -/
theorem run_eq_error_iff {computation : Deferred Base σ ρ t} {before after : σ} {reason : Panic} :
    computation.run before = some (.error reason, after) ↔
      computation.VisitPanics before reason after ∨
        ∃ value, computation.graph.run before = some (.ok value, after) ∧ value.type ≠ t ∧
          reason = .text mismatch := by
  rw [run, VisitPanics, Call.bind_eq_some_iff, ← Graph.run_eq_error_iff_panics]
  refine or_congr ?_ ?_
  · simp
  · refine exists_congr fun value => ?_
    simp only [Tagged.expect_eq_error_iff]
    constructor
    · rintro ⟨between, ran, different, rfl, rfl⟩
      exact ⟨ran, different, rfl⟩
    · rintro ⟨ran, different, rfl⟩
      exact ⟨after, ran, different, rfl, rfl⟩

/-- A run inside of a function is a call of that function, and what leaves the one leaves the other.
-/
theorem raises_run {computation : Deferred Base σ ρ t} {before after : σ} {reason : Panic}
    (panics : computation.VisitPanics before reason after) :
    Raises computation.run before reason after :=
  .first panics.raises

section Leaf

variable {s : Ty ι} {produce : Call σ (s.Value Base)}
  {function : s.Value Base → Call σ (Deferred Base σ ρ t)} {before between after : σ}
  {reason : Panic}

/-- The first leaf of a run panics. -/
theorem visitPanics_of_producer (raises : Raises produce (Graph.begun none before) reason after) :
    ((fromThunk produce).flatMap function).VisitPanics before reason after := by
  refine .producer (.visit rfl (.start _ _)) rfl ?_
  rw [map_eq_pure_bind]
  exact .first (.first raises)

/-- The first function that gets a value panics. -/
theorem visitPanics_of_function {value : s.Value Base}
    (called : produce (Graph.begun none before) = some (.ok value, between))
    (raises : Raises (function value) between reason after) :
    ((fromThunk produce).flatMap function).VisitPanics before reason after := by
  have produced : (Immediate.ready <$> tagged produce : Call σ (Tagged Base))
      (Graph.begun none before) = some (.ok ⟨s, value⟩, between) :=
    Call.map_of_ok _ (Call.bind_of_ok called)
  refine .continuation (.visit rfl (.start _ _)) rfl produced rfl ?_
  rw [checked, Tagged.expect_mk, pure_bind]
  exact .first raises

end Leaf

end Deferred

end Deferral

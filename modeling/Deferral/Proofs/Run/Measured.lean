import Deferral.Proofs.Run.Visits
import Mathlib.Tactic.SplitIfs

/-!
# The size of a run by recursion

`Graph.measured` is the recursive meaning of a graph together with the size of its run: a leaf is
one visit and needs no stack, a bind is one visit more than its two parts, and its predecessor runs
with one more continuation pending. The machine computes it whatever is pending. The continuations
that wait are then applied one after the other, each to the value of the graph before it, which is
what `Machine.unwind` says by recursion on the stack.
-/

namespace Deferral

namespace RunStats

/-- The size of a run of a leaf. -/
def leaf : RunStats where
  steps := 1
  peakStackDepth := 0

/-- The size of a run of a bind, of those of its predecessor and of the graph that it goes on with.
The bind waits only below the first of them. -/
def bind (first second : RunStats) : RunStats where
  steps := 1 + first.steps + second.steps
  peakStackDepth := max (1 + first.peakStackDepth) second.peakStackDepth

/-- The size of a run so far and of the part that follows, which begins with so many continuations
pending. A part that needs no stack leaves the mark as it is. -/
def grown (soFar : RunStats) (depth : Nat) (part : RunStats) : RunStats where
  steps := soFar.steps + part.steps
  peakStackDepth :=
    if part.peakStackDepth = 0 then soFar.peakStackDepth
    else max soFar.peakStackDepth (depth + part.peakStackDepth)

theorem grown_leaf (soFar : RunStats) (depth : Nat) :
    soFar.grown depth leaf = ⟨soFar.steps + 1, soFar.peakStackDepth⟩ := rfl

theorem grown_bind (soFar first second : RunStats) (depth : Nat) :
    soFar.grown depth (first.bind second) =
      ((⟨soFar.steps + 1, max soFar.peakStackDepth (depth + 1)⟩ : RunStats).grown
        (depth + 1) first).grown depth second := by
  have peak_eq : (first.bind second).peakStackDepth =
      max (1 + first.peakStackDepth) second.peakStackDepth := rfl
  have peak_ne : (first.bind second).peakStackDepth ≠ 0 := by omega
  unfold grown
  rw [if_neg peak_ne, peak_eq, RunStats.mk.injEq]
  refine ⟨?_, ?_⟩
  · simp only [bind]
    omega
  · simp only
    split_ifs <;> omega

theorem grown_start (size : RunStats) : (⟨0, 0⟩ : RunStats).grown 0 size = size := by
  rcases size with ⟨steps, peak⟩
  simp only [grown, Nat.zero_add, Nat.zero_max, RunStats.mk.injEq, true_and]
  split
  · rename_i peak_eq
    exact peak_eq.symm
  · rfl

end RunStats

namespace Graph

variable {σ V ρ : Type} [Equations ρ σ V V]

/-- The recursive meaning of a graph, with the size of the run. -/
def measured (graph : Graph σ V V ρ) : Call σ (V × RunStats) :=
  match graph.shape with
  | .leaf produce => do return (← produce, .leaf)
  | .bind predecessor resume => do
    let (value, first) ← predecessor |>.measured
    let next ← resume value
    let (value, second) ← next |>.measured
    return (value, first.bind second)
partial_fixpoint

variable {graph : Graph σ V V ρ}

theorem measured_of_leaf {produce : Call σ V} (shape_eq : graph.shape = .leaf produce) :
    graph.measured = (do return (← produce, .leaf)) := by
  rw [measured, shape_eq]

theorem measured_of_bind {predecessor : Graph σ V V ρ} {resume : Continuation σ V V ρ}
    (shape_eq : graph.shape = .bind predecessor resume) :
    graph.measured = (do
      let (value, first) ← predecessor.measured
      let next ← resume value
      let (value, second) ← next.measured
      return (value, first.bind second)) := by
  rw [measured, shape_eq]

end Graph

namespace Machine

variable {σ V ρ : Type} [Equations ρ σ V V]

/-- The continuations of a stack applied one after the other, beginning with a value. -/
def unwind : List (Graph.Continuation σ V V ρ) → Nat → RunStats → V → Call σ (V × RunStats)
  | [], _, soFar, value => return (value, soFar)
  | resume :: waiting, depth, soFar, value => do
    let next ← resume value
    let (value, size) ← next.measured
    unwind waiting (depth - 1) (soFar.grown (depth - 1) size) value

/-- What a run amounts to, from any state: the current graph, and then what waits for its value. -/
def meaning (machine : Machine σ V ρ) : Call σ (V × RunStats) := do
  let (value, size) ← machine.current.measured
  unwind machine.pending.waiting machine.pending.depth
    (machine.stats.grown machine.pending.depth size) value

/-- The meaning of a run is that of one visit and of the run that is left. -/
theorem meaning_eq_visit (machine : Machine σ V ρ) :
    machine.meaning = (do
      match ← machine.visit with
      | .moved next => next.meaning
      | .finished value stats => return (value, stats)) := by
  rcases machine with ⟨current, ⟨waiting, depth, peak⟩, steps⟩
  rcases shape_eq : current.shape with produce | ⟨predecessor, resume⟩
  · rw [meaning, visit_of_leaf shape_eq, Graph.measured_of_leaf shape_eq]
    rcases waiting with _ | ⟨resume, waiting⟩
    · simp only [Pending.pop?, bind_assoc, pure_bind, unwind, RunStats.grown_leaf]
      rfl
    · simp only [Pending.pop?, bind_assoc, pure_bind, unwind, RunStats.grown_leaf]
      rfl
  · rw [meaning, visit_of_bind shape_eq, Graph.measured_of_bind shape_eq]
    simp only [bind_assoc, pure_bind, meaning, RunStats.grown_bind]
    rfl

theorem drive_below_meaning (machine : Machine σ V ρ) :
    Call.Below machine.drive machine.meaning := by
  refine drive.fixpoint_induct (fun drive => ∀ machine before answer,
    drive machine before = some answer → machine.meaning before = some answer) ?_ ?_ machine
  · exact fun _ _ => Call.answers_of_chain
      fun _ _ => ⟨fun order => by cases order <;> simp, by rintro (rfl | rfl) <;> constructor⟩
  · rintro drive ih machine before ⟨ending, after⟩ driven
    rw [meaning_eq_visit]
    rcases Call.bind_eq_some_iff.mp driven with
      ⟨reason, panicked, rfl⟩ | ⟨visited, between, visited_eq, driven⟩
    · exact Call.bind_of_error panicked
    · rw [Call.bind_of_ok visited_eq]
      rcases visited with next | ⟨value, stats⟩
      · exact ih next between _ driven
      · exact driven

/-- What a machine does with the value of its current graph, whose run left a size so far. -/
def handOn (waiting : List (Graph.Continuation σ V V ρ)) (depth : Nat) (soFar : RunStats)
    (value : V) : Call σ (V × RunStats) :=
  match waiting with
  | [] => return (value, soFar)
  | resume :: waiting => do
    let next ← resume value
    drive ⟨next, ⟨waiting, depth - 1, soFar.peakStackDepth⟩, soFar.steps⟩

theorem drive_of_leaf {graph : Graph σ V V ρ} {produce : Call σ V}
    (shape_eq : graph.shape = .leaf produce) (pending : Pending (Graph.Continuation σ V V ρ))
    (steps : Nat) :
    drive ⟨graph, pending, steps⟩ = (do
      let value ← produce
      handOn pending.waiting pending.depth ⟨steps + 1, pending.peak⟩ value) := by
  rw [drive, visit_of_leaf shape_eq]
  rcases pending with ⟨waiting, depth, peak⟩
  rcases waiting with _ | ⟨resume, waiting⟩
  · simp only [Pending.pop?, bind_assoc, pure_bind]
    rfl
  · simp only [Pending.pop?, bind_assoc, pure_bind]
    rfl

theorem drive_of_bind {graph predecessor : Graph σ V V ρ} {resume : Graph.Continuation σ V V ρ}
    (shape_eq : graph.shape = .bind predecessor resume)
    (pending : Pending (Graph.Continuation σ V V ρ)) (steps : Nat) :
    drive ⟨graph, pending, steps⟩ = drive ⟨predecessor, pending.push resume, steps + 1⟩ := by
  rw [drive, visit_of_bind shape_eq, pure_bind]

/-- Where a graph has a meaning, the machine comes to its value or to its panic, whatever waits. -/
theorem drive_of_measured (graph : Graph σ V V ρ) (before : σ)
    (answer : Except Panic (V × RunStats) × σ) (measured : graph.measured before = some answer)
    (pending : Pending (Graph.Continuation σ V V ρ)) (steps : Nat) :
    drive ⟨graph, pending, steps⟩ before =
      Call.goOn (fun (value, size) => handOn pending.waiting pending.depth
        ((⟨steps, pending.peak⟩ : RunStats).grown pending.depth size) value) answer := by
  refine Graph.measured.fixpoint_induct (fun measured => ∀ graph before answer,
    measured graph before = some answer →
      ∀ (pending : Pending (Graph.Continuation σ V V ρ)) (steps : Nat),
        drive ⟨graph, pending, steps⟩ before =
          Call.goOn (fun (value, size) => handOn pending.waiting pending.depth
            ((⟨steps, pending.peak⟩ : RunStats).grown pending.depth size) value) answer)
    ?_ ?_ graph before answer measured pending steps
  · exact fun _ _ => Call.answers_of_chain
      fun _ _ => ⟨fun order => by cases order <;> simp, by rintro (rfl | rfl) <;> constructor⟩
  · rintro measured ih graph before ⟨ending, after⟩ answered pending steps
    rcases shape_eq : graph.shape with produce | ⟨predecessor, resume⟩
    · simp only [shape_eq] at answered
      rw [drive_of_leaf shape_eq]
      rcases Call.bind_eq_some_iff.mp answered with
        ⟨reason, produced, rfl⟩ | ⟨value, between, produced, answered⟩
      · exact Call.bind_of_error produced
      · rw [Call.bind_of_ok produced]
        cases answered
        rfl
    · simp only [shape_eq] at answered
      rw [drive_of_bind shape_eq]
      rcases Call.bind_eq_some_iff.mp answered with
        ⟨reason, first_eq, rfl⟩ | ⟨⟨value, first⟩, between, first_eq, answered⟩
      · exact ih predecessor before _ first_eq _ _
      · rw [ih predecessor before _ first_eq]
        simp only [Call.goOn, Pending.push, handOn, Nat.add_sub_cancel]
        rcases Call.bind_eq_some_iff.mp answered with
          ⟨reason, resumed, rfl⟩ | ⟨next, resumed_world, resumed, answered⟩
        · exact Call.bind_of_error resumed
        · rw [Call.bind_of_ok resumed]
          rcases Call.bind_eq_some_iff.mp answered with
            ⟨reason, second_eq, rfl⟩ | ⟨⟨last, second⟩, last_world, second_eq, answered⟩
          · exact ih next resumed_world _ second_eq _ _
          · rw [ih next resumed_world _ second_eq]
            cases answered
            simp only [Call.goOn, RunStats.grown_bind]
            rfl

theorem unwind_below_handOn (waiting : List (Graph.Continuation σ V V ρ)) (depth : Nat)
    (soFar : RunStats) (value : V) :
    Call.Below (unwind waiting depth soFar value) (handOn waiting depth soFar value) := by
  induction waiting generalizing depth soFar value with
  | nil => exact .refl _
  | cons resume waiting ih =>
      rintro before ⟨ending, after⟩ unwound
      simp only [handOn]
      rcases Call.bind_eq_some_iff.mp unwound with
        ⟨reason, resumed, rfl⟩ | ⟨next, between, resumed, unwound⟩
      · exact Call.bind_of_error resumed
      · rw [Call.bind_of_ok resumed]
        rcases Call.bind_eq_some_iff.mp unwound with
          ⟨reason, next_eq, rfl⟩ | ⟨⟨last, size⟩, last_world, next_eq, unwound⟩
        · rw [drive_of_measured next between _ next_eq]
          rfl
        · rw [drive_of_measured next between _ next_eq]
          exact ih _ _ _ _ _ unwound

/-- The machine computes the recursive meaning of a graph and its size, and applies what waits to
its value, from any state. -/
theorem drive_eq_meaning (machine : Machine σ V ρ) : machine.drive = machine.meaning := by
  refine Call.Below.antisymm machine.drive_below_meaning ?_
  rintro before ⟨ending, after⟩ answered
  rcases Call.bind_eq_some_iff.mp answered with
    ⟨reason, measured, rfl⟩ | ⟨⟨value, size⟩, between, measured, unwound⟩
  · rw [drive_of_measured machine.current before _ measured machine.pending machine.steps]
    rfl
  · rw [drive_of_measured machine.current before _ measured machine.pending machine.steps]
    exact unwind_below_handOn _ _ _ _ _ _ unwound

theorem drive_start (graph : Graph σ V V ρ) :
    (start graph).drive = graph.measured := by
  rw [drive_eq_meaning, meaning]
  simp only [start, stats, Pending.waiting_empty, Pending.depth_empty, Pending.peak_empty, unwind,
    RunStats.grown_start]
  exact bind_pure _

end Machine

end Deferral

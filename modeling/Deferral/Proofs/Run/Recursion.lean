import Deferral.Proofs.Run.Measured
import Deferral.Proofs.Run.Reports
import Deferral.Run.Meaning

/-!
# The loop computes the recursive meaning

The recursive meaning of a graph is given three times: as a function, with the size of the run, and
by finite derivations. The three agree, and the loop of a run, which keeps its own stack and knows
no recursion, agrees with them: it has the same value or panic in the same world, and it goes on
forever just where there is no derivation.
-/

namespace Deferral

namespace Graph

variable {σ V ρ : Type} [Equations ρ σ V V]
variable {graph : Graph σ V V ρ} {before after : σ}

theorem eval_of_leaf {produce : Call σ V} (shape_eq : graph.shape = .leaf produce) :
    graph.eval = produce := by
  rw [eval, shape_eq]

theorem eval_of_bind {predecessor : Graph σ V V ρ} {resume : Continuation σ V V ρ}
    (shape_eq : graph.shape = .bind predecessor resume) :
    graph.eval = (do
      let value ← predecessor.eval
      let next ← resume value
      next.eval) := by
  rw [eval, shape_eq]

theorem measured_below_eval (graph : Graph σ V V ρ) (before : σ)
    (answer : Except Panic (V × RunStats) × σ) (measured : graph.measured before = some answer) :
    graph.eval before = some (answer.1.map Prod.fst, answer.2) := by
  refine Graph.measured.fixpoint_induct (fun measured => ∀ graph before answer,
    measured graph before = some answer →
      graph.eval before = some (answer.1.map Prod.fst, answer.2)) ?_ ?_ graph before answer measured
  · exact fun _ _ => Call.answers_of_chain
      fun _ _ => ⟨fun order => by cases order <;> simp, by rintro (rfl | rfl) <;> constructor⟩
  · rintro measured ih graph before ⟨ending, after⟩ answered
    rcases shape_eq : graph.shape with produce | ⟨predecessor, resume⟩
    · simp only [shape_eq] at answered
      rw [eval_of_leaf shape_eq]
      rcases Call.bind_eq_some_iff.mp answered with
        ⟨reason, produced, rfl⟩ | ⟨value, between, produced, answered⟩
      · exact produced
      · cases answered
        exact produced
    · simp only [shape_eq] at answered
      rw [eval_of_bind shape_eq]
      rcases Call.bind_eq_some_iff.mp answered with
        ⟨reason, first_eq, rfl⟩ | ⟨⟨value, first⟩, between, first_eq, answered⟩
      · exact Call.bind_of_error (ih predecessor before _ first_eq)
      · rw [Call.bind_of_ok (ih predecessor before _ first_eq)]
        rcases Call.bind_eq_some_iff.mp answered with
          ⟨reason, resumed, rfl⟩ | ⟨next, resumed_world, resumed, answered⟩
        · exact Call.bind_of_error resumed
        · rw [Call.bind_of_ok resumed]
          rcases Call.bind_eq_some_iff.mp answered with
            ⟨reason, second_eq, rfl⟩ | ⟨⟨last, second⟩, last_world, second_eq, answered⟩
          · exact ih next resumed_world _ second_eq
          · cases answered
            exact ih next resumed_world (.ok (last, second), after) second_eq

theorem eval_below_measured (graph : Graph σ V V ρ) :
    Call.Below graph.eval (Prod.fst <$> graph.measured) := by
  refine Graph.eval.fixpoint_induct (fun eval => ∀ graph before answer,
    eval graph before = some answer → (Prod.fst <$> graph.measured) before = some answer)
      ?_ ?_ graph
  · exact fun _ _ => Call.answers_of_chain
      fun _ _ => ⟨fun order => by cases order <;> simp, by rintro (rfl | rfl) <;> constructor⟩
  · rintro eval ih graph before ⟨ending, after⟩ answered
    rcases shape_eq : graph.shape with produce | ⟨predecessor, resume⟩
    · simp only [shape_eq] at answered
      rw [measured_of_leaf shape_eq, map_bind]
      simp only [map_pure, bind_pure]
      exact answered
    · simp only [shape_eq] at answered
      have meaning_eq : Prod.fst <$> graph.measured = (do
          let value ← Prod.fst <$> predecessor.measured
          let next ← resume value
          Prod.fst <$> next.measured) := by
        rw [measured_of_bind shape_eq]
        simp only [map_eq_pure_bind, bind_assoc, pure_bind]
      rw [meaning_eq]
      rcases Call.bind_eq_some_iff.mp answered with
        ⟨reason, first_eq, rfl⟩ | ⟨value, between, first_eq, answered⟩
      · exact Call.bind_of_error (ih predecessor before _ first_eq)
      · rw [Call.bind_of_ok (ih predecessor before _ first_eq)]
        rcases Call.bind_eq_some_iff.mp answered with
          ⟨reason, resumed, rfl⟩ | ⟨next, resumed_world, resumed, answered⟩
        · exact Call.bind_of_error resumed
        · rw [Call.bind_of_ok resumed]
          exact ih next resumed_world _ answered

theorem fst_measured (graph : Graph σ V V ρ) : Prod.fst <$> graph.measured = graph.eval := by
  refine Call.Below.antisymm ?_ graph.eval_below_measured
  rintro before ⟨ending, after⟩ answered
  rw [map_eq_pure_bind] at answered
  rcases Call.bind_eq_some_iff.mp answered with
    ⟨reason, measured, rfl⟩ | ⟨⟨value, size⟩, between, measured, answered⟩
  · exact measured_below_eval graph before _ measured
  · cases answered
    exact measured_below_eval graph before _ measured

theorem evaluates_of_eval (graph : Graph σ V V ρ) (before : σ) (answer : Except Panic V × σ)
    (evaluated : graph.eval before = some answer) : Evaluates graph before answer.1 answer.2 := by
  refine Graph.eval.fixpoint_induct (fun eval => ∀ graph before answer,
    eval graph before = some answer → Evaluates graph before answer.1 answer.2)
    ?_ ?_ graph before answer evaluated
  · exact fun _ _ => Call.answers_of_chain
      fun _ _ => ⟨fun order => by cases order <;> simp, by rintro (rfl | rfl) <;> constructor⟩
  · rintro eval ih graph before ⟨ending, after⟩ answered
    rcases shape_eq : graph.shape with produce | ⟨predecessor, resume⟩
    · simp only [shape_eq] at answered
      exact .leaf shape_eq answered
    · simp only [shape_eq] at answered
      rcases Call.bind_eq_some_iff.mp answered with
        ⟨reason, first_eq, rfl⟩ | ⟨value, between, first_eq, answered⟩
      · exact .predecessorPanics shape_eq (ih predecessor before _ first_eq)
      · have first := ih predecessor before _ first_eq
        rcases Call.bind_eq_some_iff.mp answered with
          ⟨reason, resumed, rfl⟩ | ⟨next, resumed_world, resumed, answered⟩
        · exact .continuationPanics shape_eq first resumed
        · exact .bind shape_eq first resumed (ih next resumed_world _ answered)

theorem Evaluates.eval_eq {ending : Except Panic V}
    (evaluates : Evaluates graph before ending after) :
    graph.eval before = some (ending, after) := by
  induction evaluates with
  | leaf shape_eq called =>
      rw [eval_of_leaf shape_eq]
      exact called
  | predecessorPanics shape_eq _ first_eq =>
      rw [eval_of_bind shape_eq]
      exact Call.bind_of_error first_eq
  | continuationPanics shape_eq _ resumed first_eq =>
      rw [eval_of_bind shape_eq, Call.bind_of_ok first_eq]
      exact Call.bind_of_error resumed
  | bind shape_eq _ resumed _ first_eq second_eq =>
      rw [eval_of_bind shape_eq, Call.bind_of_ok first_eq, Call.bind_of_ok resumed, second_eq]

/-- A graph has a meaning where there is a derivation of it. -/
theorem eval_eq_some_iff {ending : Except Panic V} :
    graph.eval before = some (ending, after) ↔ Evaluates graph before ending after :=
  ⟨fun evaluated => evaluates_of_eval graph before _ evaluated, Evaluates.eval_eq⟩

theorem eval_eq_none_iff :
    graph.eval before = none ↔ ¬ ∃ ending after, Evaluates graph before ending after := by
  rw [Option.eq_none_iff_forall_ne_some]
  constructor
  · rintro none_eq ⟨ending, after, evaluates⟩
    exact none_eq _ evaluates.eval_eq
  · intro no_derivation answer evaluated
    exact no_derivation ⟨_, _, evaluates_of_eval graph before answer evaluated⟩

variable [Host σ V]

/-- What is measured makes no difference to the value of a run, nor does the room that is taken. -/
theorem run_eq_runToEnd (graph : Graph σ V V ρ) {capacity : UInt64}
    (room : Machine.RoomFor capacity) :
    graph.run = Completed.value <$> graph.runToEnd ⟨none, capacity⟩ := by
  rw [run_eq, runToEnd_eq, Call.reserve_of_le room, pure_bind]
  simp only [map_bind, map_pure]

/-- The loop computes the recursive meaning: as a function it is `Graph.eval`, so it has the value,
the panic and the world of a derivation where there is one, and goes on forever where there is none.
A run has what its loop has, between its two reports, whatever room is taken for its stack. Only
where so much room cannot be asked for there is a panic instead, and nothing is run. -/
theorem run_computes_meaning (graph : Graph σ V V ρ) (capacity : UInt64) :
    let loop := (Machine.start graph).drive
    let run := graph.runToEnd ⟨none, capacity⟩
    Prod.fst <$> loop = graph.eval ∧
    (∀ before value after, (∃ stats, loop before = some (.ok (value, stats), after)) ↔
      Evaluates graph before (.ok value) after) ∧
    (∀ before reason after, loop before = some (.error reason, after) ↔
      Evaluates graph before (.error reason) after) ∧
    (∀ before, loop before = none ↔ ¬ ∃ ending after, Evaluates graph before ending after) ∧
    (Machine.RoomFor capacity →
      graph.run = Completed.value <$> run ∧
      (∀ world value stats last, run world = some (.ok ⟨value, stats⟩, last) →
        ∃ after, Evaluates graph (begun none world) (.ok value) after ∧
          last = Host.emit (.finished stats) after) ∧
      (∀ world value after, Evaluates graph (begun none world) (.ok value) after →
        ∃ stats, run world = some (.ok ⟨value, stats⟩, Host.emit (.finished stats) after)) ∧
      (∀ world reason after, run world = some (.error reason, after) ↔
        Evaluates graph (begun none world) (.error reason) after) ∧
      ∀ world, run world = none ↔
        ¬ ∃ ending after, Evaluates graph (begun none world) ending after) ∧
    (¬ Machine.RoomFor capacity →
      ∀ world, run world = some (.error (.text "capacity overflow"), world)) := by
  intro loop run
  have loop_eq : Prod.fst <$> loop = graph.eval := by
    rw [← fst_measured, ← Machine.drive_start graph]
  have value_iff : ∀ before value after,
      (∃ stats, loop before = some (.ok (value, stats), after)) ↔
        Evaluates graph before (.ok value) after := by
    intro before value after
    rw [← eval_eq_some_iff, ← loop_eq, Call.map_eq_ok_iff]
    simp
  have panic_iff : ∀ before reason after, loop before = some (.error reason, after) ↔
      Evaluates graph before (.error reason) after := by
    intro before reason after
    rw [← eval_eq_some_iff, ← loop_eq, Call.map_eq_error_iff]
  have none_iff : ∀ before, loop before = none ↔
      ¬ ∃ ending after, Evaluates graph before ending after := by
    intro before
    rw [← eval_eq_none_iff, ← loop_eq, Call.map_eq_none_iff]
  refine ⟨loop_eq, value_iff, panic_iff, none_iff, fun room => ?_, fun no_room world => ?_⟩
  · refine ⟨run_eq_runToEnd graph room, ?_, ?_, ?_, ?_⟩
    · intro world value stats last ran
      rcases (runToEnd_eq_ok_iff room).mp ran with ⟨after, looped, rfl⟩
      exact ⟨after, (value_iff _ _ _).mp ⟨stats, looped⟩, rfl⟩
    · intro world value after evaluates
      rcases (value_iff _ _ _).mpr evaluates with ⟨stats, looped⟩
      exact ⟨stats, (runToEnd_eq_ok_iff room).mpr ⟨after, looped, rfl⟩⟩
    · intro world reason after
      exact (runToEnd_eq_error_iff room).trans (panic_iff _ _ _)
    · intro world
      exact (runToEnd_eq_none_iff room).trans (none_iff _)
  · exact runToEnd_of_no_room no_room

/-- A leaf evaluates to its value, but a run of it that asks for room for `2 ^ 62` continuations
ends with a panic. -/
theorem huge_capacity_hides_meaning :
    let graph : Graph (Session Unit Nat) Nat Nat Empty := .leaf (pure 1 : Call _ Nat)
    let before := begun none (.start ())
    Evaluates graph before (.ok 1) before ∧
      graph.runToEnd ⟨none, 4611686018427387904⟩ (.start ()) =
        some (.error (.text "capacity overflow"), .start ()) :=
  ⟨.leaf (shape_leaf _) rfl, rfl⟩

end Graph

end Deferral

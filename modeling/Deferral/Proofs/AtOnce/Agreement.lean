import Deferral.Proofs.AtOnce.Suspension
import Deferral.Proofs.Run.Reports

/-!
# Waiting and working at once

Polling the run of an asynchronous graph to the end comes to the same as running the graph whose
work is done at once. Suspension decides only how the work is spread over the polls: the run is done
at the poll after those that found a leaf's future unfinished, and what was done before is a first
part of the whole.
-/

namespace Deferral

variable {σ V ρ : Type} [Host σ V] [Equations ρ σ (Future σ V ρ) V]

namespace AsyncMachine

variable {machine : AsyncMachine σ V ρ} {before : σ}

/-- What a run that is polled to the end does after a visit. -/
def exhaustAfter : AsyncVisited σ V ρ × Nat → Call σ (V × Nat)
  | (.moved next, waits) => Call.later waits (Future.visit next.current next.pending).exhaust
  | (.finished value stats, waits) => do
    Host.report (.asyncFinished stats.peakStackDepth)
    return (value, waits)

/-- Polling to the end makes the visits of the machine. -/
theorem exhaust_of_visit {answer : Except Panic (AsyncVisited σ V ρ × Nat) × σ}
    (visited : machine.visit before = some answer) :
    (Future.visit machine.current machine.pending).exhaust before =
      Call.goOn exhaustAfter answer := by
  rcases answer with ⟨ending, after⟩
  rcases shape_eq : machine.current.shape with produce | ⟨predecessor, resume⟩
  · rw [visit_of_leaf shape_eq] at visited
    rw [Future.exhaust_visit_of_leaf shape_eq]
    rcases Call.bind_eq_some_iff.mp visited with
      ⟨reason, panicked, rfl⟩ | ⟨leaf, here, produced, visited⟩
    · exact Call.bind_of_error panicked
    · rw [Call.bind_of_ok produced]
      rcases Call.bind_eq_some_iff.mp visited with
        ⟨reason, exhausted, rfl⟩ | ⟨⟨value, waits⟩, between, exhausted, visited⟩
      · rcases Future.exhaust_eq_some_iff.mp exhausted with ⟨waits, rest, last, pends, panicked⟩
        rw [pends.await.exhaust_eq]
        exact Call.later_eq_of_error waits (Future.exhaust_await_of_panic panicked)
      · rcases Future.exhaust_eq_some_iff.mp exhausted with ⟨rest, last, pends, ready⟩
        rw [pends.await.exhaust_eq, Call.later_congr waits (Future.exhaust_await_of_ready ready)]
        rcases popped : machine.pending.pop? with _ | ⟨resume, pending⟩
        · simp only [popped] at visited ⊢
          cases visited
          rw [Call.later_congr waits (Graph.bind_report _ _ _)]
          rfl
        · simp only [popped] at visited ⊢
          rcases Call.bind_eq_some_iff.mp visited with
            ⟨reason, panicked, rfl⟩ | ⟨next, resumed, called, visited⟩
          · exact Call.later_eq_of_error waits (Call.bind_of_error panicked)
          · cases visited
            exact Call.later_congr waits (Call.bind_of_ok called)
  · rw [visit_of_bind shape_eq] at visited
    cases visited
    rw [Future.exhaust_visit_of_bind shape_eq]
    exact congrFun Call.later_zero.symm before

/-- What a run reports and yields after its last visit. -/
def report (ending : (V × RunStats) × Nat) : Call σ (V × Nat) := do
  Host.report (.asyncFinished ending.1.2.peakStackDepth)
  return (ending.1.1, ending.2)

theorem exhaust_of_walk (machine : AsyncMachine σ V ρ) (before : σ)
    (answer : Except Panic ((V × RunStats) × Nat) × σ)
    (walked : machine.walk before = some answer) :
    (Future.visit machine.current machine.pending).exhaust before = Call.goOn report answer := by
  refine walk.fixpoint_induct (fun walk => ∀ machine before answer,
    walk machine before = some answer →
      (Future.visit machine.current machine.pending).exhaust before = Call.goOn report answer)
    ?_ ?_ machine before answer walked
  · exact fun _ _ => Call.answers_of_chain
      fun _ _ => ⟨fun order => by cases order <;> simp, by rintro (rfl | rfl) <;> constructor⟩
  · rintro walk ih machine before ⟨ending, after⟩ walked
    rcases Call.bind_eq_some_iff.mp walked with
      ⟨reason, panicked, rfl⟩ | ⟨⟨next | ⟨value, stats⟩, waits⟩, between, visited, walked⟩
    · exact exhaust_of_visit panicked
    · rw [exhaust_of_visit visited]
      rcases Call.bind_eq_some_iff.mp walked with
        ⟨reason, panicked, rfl⟩ | ⟨⟨ending, later⟩, last, later_eq, walked⟩
      · exact Call.later_eq_of_error waits (ih next between _ panicked)
      · cases walked
        exact Call.later_eq_of_ok waits (ih next between _ later_eq)
    · cases walked
      rw [exhaust_of_visit visited]
      rfl

end AsyncMachine

/-- Polling a run to the end makes the whole walk and reports its end. -/
theorem exhaust_ofGraph (graph : AsyncGraph σ V ρ) :
    (Future.ofGraph graph).exhaust =
      (AsyncMachine.start graph).walk >>= AsyncMachine.report := by
  apply Call.Below.antisymm
  · rintro before ⟨ending, after⟩ exhausted
    rcases ending with reason | ⟨value, waits⟩
    · rcases Future.exhaust_eq_some_iff.mp exhausted with ⟨waits, rest, between, pends, panicked⟩
      have walked := (comes_of_pends pends).answered panicked
      exact Call.bind_of_error walked
    · rcases Future.exhaust_eq_some_iff.mp exhausted with ⟨rest, between, pends, ready⟩
      rcases (comes_of_pends pends).answered ready with ⟨stats, last, walked, rfl⟩
      rw [Call.bind_of_ok walked]
      rfl
  · rintro before ⟨ending, after⟩ answered
    rcases Call.bind_eq_some_iff.mp answered with
      ⟨reason, walked, rfl⟩ | ⟨ending, between, walked, answered⟩
    · exact AsyncMachine.exhaust_of_walk (.start graph) before _ walked
    · have exhausted := AsyncMachine.exhaust_of_walk (.start graph) before _ walked
      exact exhausted.trans answered

namespace Graph

variable (graph : AsyncGraph σ V ρ) {before after : σ}

/-- A run is ready at the poll after those that found a leaf's future unfinished, and not before. -/
theorem ready_of_walk {value : V} {stats : RunStats} {waits : Nat}
    (walked : (AsyncMachine.start graph).walk before = some (.ok ((value, stats), waits), after)) :
    ∃ rest between, Future.Pends waits (.ofGraph graph) before rest between ∧
      rest.poll between =
        some (.ok (.ready value), Host.emit (.asyncFinished stats.peakStackDepth) after) := by
  have exhausted : (Future.ofGraph graph).exhaust before =
      some (.ok (value, waits), Host.emit (.asyncFinished stats.peakStackDepth) after) := by
    rw [exhaust_ofGraph, Call.bind_of_ok walked]
    rfl
  exact Future.exhaust_eq_some_iff.mp exhausted

/-- A run panics at one of its polls if the walk panics, and there has the same effects. -/
theorem panics_of_walk {reason : Panic}
    (walked : (AsyncMachine.start graph).walk before = some (.error reason, after)) :
    ∃ polls rest between, Future.Pends polls (.ofGraph graph) before rest between ∧
      rest.poll between = some (.error reason, after) := by
  have exhausted : (Future.ofGraph graph).exhaust before = some (.error reason, after) := by
    rw [exhaust_ofGraph]
    exact Call.bind_of_error walked
  exact Future.exhaust_eq_some_iff.mp exhausted

/-- Without the count, polling to the end is the loop that does the work at once and then the
report. -/
theorem exhaust_eq_drive :
    Prod.fst <$> (Future.ofGraph graph).exhaust = (do
      let (value, stats) ← (Machine.start graph.atOnce).drive
      Host.report (.asyncFinished stats.peakStackDepth)
      return value) := by
  rw [← AsyncMachine.start_atOnce, AsyncMachine.drive_atOnce, exhaust_ofGraph, map_bind,
    bind_map_left]
  refine bind_congr fun ending => ?_
  simp only [AsyncMachine.report, map_bind, map_pure]

/-- Waiting changes only when things happen. The run that does the work at once and the run that is
polled to the end are the same loop between their reports, so they have the same value, effects,
panic and peak. The polled run is ready at the poll after those that found the future of a visited
leaf unfinished, and after fewer polls it is in the middle of a leaf: what it has done by then are
the visits of the loop up to this leaf and a first part of the leaf's work. -/
theorem polled_run_agrees (options : RunOptions) :
    let future := Future.ofGraph graph
    let loop := (Machine.start graph.atOnce).drive
    let walk := (AsyncMachine.start graph).walk
    graph.atOnce.shape = graph.shape.atOnce ∧
    graph.atOnce.runToEnd options = (do
      Call.reserve Machine.continuationBytes options.stackCapacity.toNat
      Host.report (.started none)
      let (value, stats) ← loop
      Host.report (.finished stats)
      return ⟨value, stats⟩) ∧
    Prod.fst <$> future.exhaust = (do
      let (value, stats) ← loop
      Host.report (.asyncFinished stats.peakStackDepth)
      return value) ∧
    loop = Prod.fst <$> walk ∧
    (∀ before value stats waits after,
      walk before = some (.ok ((value, stats), waits), after) →
      ∃ rest between, future.Pends waits before rest between ∧
        rest.poll between =
          some (.ok (.ready value), Host.emit (.asyncFinished stats.peakStackDepth) after)) ∧
    (∀ before reason after, walk before = some (.error reason, after) →
      ∃ polls rest between, future.Pends polls before rest between ∧
        rest.poll between = some (.error reason, after)) ∧
    ∀ before polls rest between, future.Pends polls before rest between →
      future.exhaust before = Call.later polls rest.exhaust between ∧
      (polls = 0 → between = before) ∧
      (polls ≠ 0 → Suspended graph before polls rest between) := by
  intro future loop walk
  refine ⟨graph.shape_atOnce, graph.atOnce.runToEnd_eq options, graph.exhaust_eq_drive,
    (AsyncMachine.start graph).drive_atOnce, ?_, ?_, ?_⟩
  · intro before value stats waits after walked
    exact graph.ready_of_walk walked
  · intro before reason after walked
    exact graph.panics_of_walk walked
  · intro before polls rest between pends
    refine ⟨pends.exhaust_eq, ?_, ?_⟩
    · rintro rfl
      cases pends
      rfl
    · intro polled
      rcases polls with _ | polls
      · exact absurd rfl polled
      · exact suspended_of_pends pends

end Graph

end Deferral

import Deferral.Proofs.AtOnce.Graph
import Deferral.Proofs.Run.Visits

/-!
# Walking through an asynchronous graph

The machine of an asynchronous graph stops at every leaf until the leaf's future is done, and counts
the polls that found it unfinished. But for the count it is the machine that runs the graph whose
work is done at once: a visit of the one is a visit of the other, so their runs have the same ends.
-/

namespace Deferral

namespace Pending

variable {κ κ' : Type}

/-- Something made of every continuation that waits. -/
def map (function : κ → κ') (pending : Pending κ) : Pending κ' where
  waiting := pending.waiting.map function
  depth := pending.depth
  peak := pending.peak

theorem pop?_map (function : κ → κ') (pending : Pending κ) :
    (pending.map function).pop? =
      pending.pop?.map fun (resume, rest) => (function resume, rest.map function) := by
  rcases pending with ⟨_ | ⟨resume, waiting⟩, depth, peak⟩
  · rfl
  · rfl

end Pending

/-- The state between two visits of a run that waits for each of its leaves. -/
structure AsyncMachine (σ V ρ : Type) where
  current : AsyncGraph σ V ρ
  pending : Pending (Graph.Continuation σ (Future σ V ρ) V ρ)
  steps : Nat

/-- What a visit leads to when its leaf was waited for. -/
inductive AsyncVisited (σ V ρ : Type) where
  | moved (machine : AsyncMachine σ V ρ)
  | finished (value : V) (stats : RunStats)

section AtOnce

variable {σ V ρ : Type} [Host σ V] [Equations ρ σ (Future σ V ρ) V]

/-- The machine in the same state that runs the graph whose work is done at once. -/
def AsyncMachine.atOnce (machine : AsyncMachine σ V ρ) : Machine σ V (AtOnce ρ) where
  current := machine.current.atOnce
  pending := machine.pending.map Graph.Continuation.atOnce
  steps := machine.steps

/-- What a visit leads to when leaves are awaited at once. -/
def AsyncVisited.atOnce : AsyncVisited σ V ρ → Visited σ V (AtOnce ρ)
  | .moved machine => .moved machine.atOnce
  | .finished value stats => .finished value stats

namespace AsyncMachine

/-- The machine before the first visit of a future that runs a graph. -/
def start (graph : AsyncGraph σ V ρ) : AsyncMachine σ V ρ where
  current := graph
  pending := .empty
  steps := 0

theorem start_atOnce (graph : AsyncGraph σ V ρ) :
    (start graph).atOnce = Machine.start graph.atOnce := rfl

/-- One visit, and how often the leaf's future was found unfinished. -/
def visit (machine : AsyncMachine σ V ρ) : Call σ (AsyncVisited σ V ρ × Nat) :=
  match machine.current.shape with
  | .leaf produce => do
    let leaf ← produce
    let (value, waits) ← leaf.exhaust
    match machine.pending.pop? with
    | none => return (.finished value ⟨machine.steps + 1, machine.pending.peak⟩, waits)
    | some (resume, pending) =>
      return (.moved ⟨← resume value, pending, machine.steps + 1⟩, waits)
  | .bind predecessor resume =>
    return (.moved ⟨predecessor, machine.pending.push resume, machine.steps + 1⟩, 0)

/-- Visit after visit until there is a value; how often a future was found unfinished is added up.
-/
def walk (machine : AsyncMachine σ V ρ) : Call σ ((V × RunStats) × Nat) := do
  match ← machine.visit with
  | (.moved next, waits) =>
    let (ending, later) ← next |>.walk
    return (ending, waits + later)
  | (.finished value stats, waits) => return ((value, stats), waits)
partial_fixpoint

variable {machine : AsyncMachine σ V ρ} {before after : σ}

theorem visit_of_leaf {produce : Call σ (Future σ V ρ)}
    (shape_eq : machine.current.shape = .leaf produce) :
    machine.visit = (do
      let leaf ← produce
      let (value, waits) ← leaf.exhaust
      match machine.pending.pop? with
      | none => return (.finished value ⟨machine.steps + 1, machine.pending.peak⟩, waits)
      | some (resume, pending) =>
        let next ← resume value
        return (.moved ⟨next, pending, machine.steps + 1⟩, waits)) := by
  unfold visit
  split
  · rename_i found found_eq
    cases found_eq.symm.trans shape_eq
    rfl
  · rename_i found_eq
    cases found_eq.symm.trans shape_eq

theorem visit_of_bind {predecessor : AsyncGraph σ V ρ}
    {resume : Graph.Continuation σ (Future σ V ρ) V ρ}
    (shape_eq : machine.current.shape = .bind predecessor resume) :
    machine.visit =
      pure (.moved ⟨predecessor, machine.pending.push resume, machine.steps + 1⟩, 0) := by
  unfold visit
  rw [shape_eq]

theorem walk_of_moved {next : AsyncMachine σ V ρ} {waits : Nat}
    (moved : machine.visit before = some (.ok (.moved next, waits), after)) :
    machine.walk before = Call.later waits next.walk after := by
  rw [walk, Call.bind_of_ok moved]
  exact congrFun (map_eq_pure_bind _ _).symm after

theorem walk_of_finished {value : V} {stats : RunStats} {waits : Nat}
    (finished : machine.visit before = some (.ok (.finished value stats, waits), after)) :
    machine.walk before = some (.ok ((value, stats), waits), after) := by
  rw [walk]
  exact Call.bind_of_ok finished

theorem walk_of_panicked {reason : Panic}
    (panicked : machine.visit before = some (.error reason, after)) :
    machine.walk before = some (.error reason, after) := by
  rw [walk]
  exact Call.bind_of_error panicked

/-- A visit is the same visit when the work is done at once. -/
theorem visit_atOnce (machine : AsyncMachine σ V ρ) :
    machine.atOnce.visit = (fun (visited, _) => visited.atOnce) <$> machine.visit := by
  rcases shape_eq : machine.current.shape with produce | ⟨predecessor, resume⟩
  · have leaf : machine.atOnce.current.shape = .leaf (Future.wholeWork produce) := by
      rw [atOnce, Graph.shape_atOnce, shape_eq, Shape.atOnce]
    rw [visit_of_leaf shape_eq, Machine.visit_of_leaf leaf, Future.wholeWork]
    simp only [atOnce, Pending.pop?_map, map_bind, bind_assoc, pure_bind]
    refine bind_congr fun future => bind_congr fun exhausted => ?_
    rcases exhausted with ⟨value, waits⟩
    rcases machine.pending.pop? with _ | ⟨resume, rest⟩
    · rfl
    · simp only [Option.map_some, Graph.Continuation.atOnce, map_bind, bind_map_left]
      rfl
  · have bind : machine.atOnce.current.shape =
        .bind predecessor.atOnce (Graph.Continuation.atOnce resume) := by
      rw [atOnce, Graph.shape_atOnce, shape_eq, Shape.atOnce]
    rw [visit_of_bind shape_eq, Machine.visit_of_bind bind]
    rfl

theorem visit_atOnce_of_ok {visited : AsyncVisited σ V ρ} {waits : Nat}
    (visited_eq : machine.visit before = some (.ok (visited, waits), after)) :
    machine.atOnce.visit before = some (.ok visited.atOnce, after) := by
  rw [visit_atOnce, Call.map_apply, visited_eq]
  rfl

theorem walk_below_drive (machine : AsyncMachine σ V ρ) :
    Call.Below (Prod.fst <$> machine.walk) machine.atOnce.drive := by
  have answered : ∀ before answer, machine.walk before = some answer →
      machine.atOnce.drive before = some (answer.1.map Prod.fst, answer.2) := by
    refine walk.fixpoint_induct (fun walk => ∀ machine before answer,
      walk machine before = some answer →
        machine.atOnce.drive before = some (answer.1.map Prod.fst, answer.2)) ?_ ?_ machine
    · exact fun _ _ => Call.answers_of_chain
        fun _ _ => ⟨fun order => by cases order <;> simp, by rintro (rfl | rfl) <;> constructor⟩
    · rintro walk ih machine before ⟨ending, after⟩ walked
      rcases Call.bind_eq_some_iff.mp walked with
        ⟨reason, panicked, rfl⟩ | ⟨⟨next | ⟨value, stats⟩, waits⟩, between, visited, walked⟩
      · apply Machine.drive_of_panicked
        rw [visit_atOnce, Call.map_apply, panicked]
        rfl
      · rw [Machine.drive_of_moved (visit_atOnce_of_ok visited)]
        rcases Call.bind_eq_some_iff.mp walked with
          ⟨reason, panicked, rfl⟩ | ⟨⟨ending, later⟩, last, later_eq, walked⟩
        · exact ih next between _ panicked
        · cases walked
          have driven := ih next between _ later_eq
          exact driven
      · cases walked
        exact Machine.drive_of_finished (visit_atOnce_of_ok visited)
  rintro before ⟨ending, after⟩ walked
  rw [Call.map_apply, Option.map_eq_some_iff] at walked
  rcases walked with ⟨answer, walked, same⟩
  rw [answered before answer walked]
  exact congrArg some same

/-- A run that does the work at once ends where the walk ends. -/
theorem exists_walk_of_ends {visits : Nat} {machine' : Machine σ V (AtOnce ρ)}
    {ending : Except Panic (V × RunStats)}
    (ends : Machine.Ends visits machine' before ending after)
    (machine_eq : machine.atOnce = machine') :
    ∃ answer, machine.walk before = some (answer, after) ∧ answer.map Prod.fst = ending := by
  induction ends generalizing machine with
  | finished finished =>
      subst machine_eq
      rw [visit_atOnce, Call.map_eq_ok_iff] at finished
      rcases finished with ⟨⟨next | ⟨value, stats⟩, waits⟩, visited, same⟩
      · cases same
      · cases same
        exact ⟨_, walk_of_finished visited, rfl⟩
  | panicked panicked =>
      subst machine_eq
      rw [visit_atOnce, Call.map_eq_error_iff] at panicked
      exact ⟨_, walk_of_panicked panicked, rfl⟩
  | visit moved _ ih =>
      subst machine_eq
      rw [visit_atOnce, Call.map_eq_ok_iff] at moved
      rcases moved with ⟨⟨next | ⟨value, stats⟩, waits⟩, visited, same⟩
      · cases same
        rcases ih rfl with ⟨reason | ⟨ending, later⟩, walked, rfl⟩
        · rw [walk_of_moved visited]
          exact ⟨_, Call.later_eq_of_error waits walked, rfl⟩
        · rw [walk_of_moved visited]
          exact ⟨_, Call.later_eq_of_ok waits walked, rfl⟩
      · cases same

theorem drive_below_walk (machine : AsyncMachine σ V ρ) :
    Call.Below machine.atOnce.drive (Prod.fst <$> machine.walk) := by
  rintro before ⟨ending, after⟩ driven
  rcases Machine.exists_ends_of_drive machine.atOnce before _ driven with ⟨visits, ends⟩
  rcases exists_walk_of_ends ends rfl with ⟨answer, walked, same⟩
  rw [Call.map_apply, walked]
  exact congrArg (fun ending => some (ending, after)) same

/-- The run that does the work at once is the walk without its count. -/
theorem drive_atOnce (machine : AsyncMachine σ V ρ) :
    machine.atOnce.drive = Prod.fst <$> machine.walk :=
  Call.Below.antisymm machine.drive_below_walk machine.walk_below_drive

end AsyncMachine

end AtOnce

end Deferral

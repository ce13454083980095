import Deferral.Proofs.Nested.Executes
import Deferral.Typed.Deferred

/-!
# Graphs whose functions interpret graphs

`Nestable` is what a user function may be made of: quiet work on the user's state, sequences, panics
that it catches itself, and the three ways to run a graph whose own functions are nestable again. A
function may also do different things in different sessions. So it may run the very graph that it is
a function of, since the calls of an execution that ends are finitely deep.

Every nestable call is executed in the sense of `Executes` when it answers. For an interpretation
this is shown visit by visit: the nodes it comes by and the continuations that wait belong to the
unfolding of its graph, and their calls are executed.
-/

namespace Deferral

namespace Graph

variable {σ V ρ : Type} [Equations ρ σ V V]

/-- The graphs that an interpretation of a graph may come by. -/
inductive Unfolds (graph : Graph σ V V ρ) : Graph σ V V ρ → Prop
  | self : Unfolds graph graph
  | predecessor {other predecessor : Graph σ V V ρ} {resume : Continuation σ V V ρ}
      (unfolds : Unfolds graph other) (shape_eq : other.shape = .bind predecessor resume) :
      Unfolds graph predecessor
  | answer {other predecessor next : Graph σ V V ρ} {resume : Continuation σ V V ρ} {value : V}
      {before after : σ} (unfolds : Unfolds graph other)
      (shape_eq : other.shape = .bind predecessor resume)
      (answered : resume value before = some (.ok next, after)) : Unfolds graph next

/-- A leaf does not unfold. -/
theorem Unfolds.eq_leaf {produce : Call σ V} {other : Graph σ V V ρ}
    (unfolds : (leaf produce : Graph σ V V ρ).Unfolds other) : other = .leaf produce := by
  induction unfolds with
  | self => rfl
  | predecessor _ shape_eq ih | answer _ shape_eq _ ih =>
      rw [ih] at shape_eq
      cases shape_eq

/-- The ways to run a graph. -/
inductive Runs [Host σ V] (graph : Graph σ V V ρ) : {α : Type} → Call σ α → Prop
  | run : Runs graph graph.run
  | runWith (options : RunOptions) : Runs graph (graph.runWith options)
  | tryRun : Runs graph graph.tryRun

end Graph

variable {ω V : Type}

/-- A call that does nothing a listener hears but to start interpretations. -/
inductive Nestable : {α : Type} → Call (Session ω V) α → Prop
  | quiet {α : Type} {call : Call (Session ω V) α}
      (silent : ∀ before ending after, call before = some (ending, after) →
        after.events = before.events) : Nestable call
  | bind {α β : Type} {call : Call (Session ω V) α} {next : α → Call (Session ω V) β}
      (first : Nestable call) (rest : ∀ value, Nestable (next value)) : Nestable (call >>= next)
  | attempt {α : Type} {call : Call (Session ω V) α} (tried : Nestable call) :
      Nestable call.attempt
  | runs {ρ : Type} [Equations ρ (Session ω V) V V] {graph : Graph (Session ω V) V V ρ} {α : Type}
      {call : Call (Session ω V) α} (runs : graph.Runs call)
      (leaves : ∀ other produce, graph.Unfolds other → other.shape = .leaf produce →
        Nestable produce)
      (binds : ∀ other predecessor resume value, graph.Unfolds other →
        other.shape = .bind predecessor resume → Nestable (resume value)) : Nestable call
  /-- A call that does in every session as some nestable call does. -/
  | alike {α : Type} {call : Call (Session ω V) α}
      (other : Session ω V → Call (Session ω V) α) (nestable : ∀ before, Nestable (other before))
      (same : ∀ before, call before = other before before) : Nestable call

namespace Nestable

theorem pure {α : Type} (value : α) : Nestable (pure value : Call (Session ω V) α) := by
  refine quiet fun before ending after answered => ?_
  cases answered
  rfl

theorem panic {α : Type} (message : String) :
    Nestable (Call.panic message : Call (Session ω V) α) := by
  refine quiet fun before ending after answered => ?_
  cases answered
  rfl

end Nestable

/-- All functions that an interpretation of a graph may call are nestable. -/
structure Graph.Nestable {ρ : Type} [Equations ρ (Session ω V) V V]
    (graph : Graph (Session ω V) V V ρ) : Prop where
  leaves : ∀ other produce, graph.Unfolds other → other.shape = .leaf produce →
    Deferral.Nestable produce
  binds : ∀ other predecessor resume value, graph.Unfolds other →
    other.shape = .bind predecessor resume → Deferral.Nestable (resume value)

namespace Graph.Nestable

variable {ρ : Type} [Equations ρ (Session ω V) V V] {graph : Graph (Session ω V) V V ρ}

theorem runs (nestable : graph.Nestable) {α : Type} {call : Call (Session ω V) α}
    (runs : graph.Runs call) : Deferral.Nestable call :=
  .runs runs nestable.leaves nestable.binds

/-- A leaf has one function. -/
theorem leaf {produce : Call (Session ω V) V} (nestable : Deferral.Nestable produce) :
    (leaf produce : Graph (Session ω V) V V ρ).Nestable where
  leaves other found unfolds shape_eq := by
    rw [unfolds.eq_leaf] at shape_eq
    cases shape_eq
    exact nestable
  binds other predecessor resume value unfolds shape_eq := by
    rw [unfolds.eq_leaf] at shape_eq
    cases shape_eq

end Graph.Nestable

namespace Deferred

variable {ι ρ : Type} {Base : ι → Type} {t : Ty ι} [DecidableEq ι]
  [Definitions Base ρ (Session ω (Tagged Base))]
  {computation : Deferred Base (Session ω (Tagged Base)) ρ t}

theorem nestable_expect (value : Tagged Base) :
    Nestable (value.expect mismatch t : Call (Session ω (Tagged Base)) (t.Value Base)) := by
  unfold Tagged.expect
  split
  · exact .pure _
  · exact .panic _

theorem nestable_run (nestable : computation.graph.Nestable) : Nestable computation.run :=
  (nestable.runs .run).bind nestable_expect

theorem nestable_runWith (nestable : computation.graph.Nestable) (options : RunOptions) :
    Nestable (computation.runWith options) := by
  refine (nestable.runs (.runWith options)).bind fun result => ?_
  rcases result with error | completed
  · exact .pure _
  · exact (nestable_expect completed.value).bind fun _ => .pure _

/-- Where the graph keeps to its type, only its interpretation can panic. -/
theorem nestable_tryRun (nestable : computation.graph.Nestable)
    (typed : ∀ before value after, computation.graph.run before = some (.ok value, after) →
      value.type = t) : Nestable computation.tryRun := by
  refine .alike (fun _ => do
    match ← computation.graph.tryRun with
    | .ok value => return .ok (← value.expect mismatch t)
    | .error error => return .error error) (fun _ => ?_) fun before => ?_
  · refine (nestable.runs .tryRun).bind fun result => ?_
    rcases result with error | value
    · exact .pure _
    · exact (nestable_expect value).bind fun _ => .pure _
  · rw [tryRun, Host.capture, Call.bind_apply, Call.attempt_apply, run, Call.bind_apply,
      Call.bind_apply, Graph.tryRun_apply]
    rcases ran : computation.graph.run before with _ | ⟨_ | value, after⟩
    · rfl
    · rfl
    · rcases value with ⟨_, value⟩
      obtain rfl := typed _ _ _ ran
      simp

end Deferred

/-- Whenever the call answers it has been executed. -/
def Orderly {α : Type} (call : Call (Session ω V) α) : Prop :=
  ∀ before ending after, call before = some (ending, after) →
    ∃ events, Executes call before events ending after

namespace Orderly

variable {α β : Type} {call : Call (Session ω V) α} {next : α → Call (Session ω V) β}

theorem quiet (silent : ∀ before ending after, call before = some (ending, after) →
    after.events = before.events) : Orderly call := by
  intro before ending after answered
  exact ⟨[], .quiet answered (silent _ _ _ answered)⟩

theorem pure (value : α) : Orderly (pure value : Call (Session ω V) α) := by
  refine quiet fun before ending after answered => ?_
  rw [Call.pure_apply] at answered
  cases answered
  rfl

/-- Only the values that a call returns have to be looked at. -/
theorem bind_of_returned (first : Orderly call)
    (rest : ∀ before value between, call before = some (.ok value, between) →
      Orderly (next value)) : Orderly (call >>= next) := by
  intro before ending after answered
  rcases Call.bind_eq_some_iff.mp answered with
    ⟨reason, panicked, rfl⟩ | ⟨value, between, called, answered⟩
  · rcases first _ _ _ panicked with ⟨events, executes⟩
    exact ⟨events, .bindPanics executes⟩
  · rcases first _ _ _ called with ⟨events, executes⟩
    rcases rest _ value _ called _ _ _ answered with ⟨more, executes_rest⟩
    exact ⟨events ++ more, .bind executes executes_rest⟩

theorem bind (first : Orderly call) (rest : ∀ value, Orderly (next value)) :
    Orderly (call >>= next) :=
  first.bind_of_returned fun _ value _ _ => rest value

theorem map (function : α → β) (orderly : Orderly call) : Orderly (function <$> call) := by
  rw [map_eq_pure_bind]
  exact orderly.bind fun _ => .pure _

theorem attempt (tried : Orderly call) : Orderly call.attempt := by
  intro before ending after answered
  rw [Call.attempt_apply] at answered
  rcases Option.map_eq_some_iff.mp answered with ⟨⟨ended, between⟩, called, same⟩
  cases same
  rcases tried _ _ _ called with ⟨events, executes⟩
  exact ⟨events, .attempt executes⟩

theorem reserve (bytes count : Nat) :
    Orderly (Call.reserve bytes count : Call (Session ω V) Unit) := by
  refine quiet fun before ending after answered => ?_
  unfold Call.reserve at answered
  split at answered
  · cases answered
    rfl
  · cases answered
    rfl

theorem alike {other : Session ω V → Call (Session ω V) α}
    (orderly : ∀ before, Orderly (other before))
    (same : ∀ before, call before = other before before) : Orderly call := by
  intro before ending after answered
  rw [same] at answered
  rcases orderly before _ _ _ answered with ⟨events, executes⟩
  exact ⟨events, .alike (same before) executes⟩

end Orderly

section Visits

variable {ρ : Type} [Equations ρ (Session ω V) V V] {graph : Graph (Session ω V) V V ρ}
  {visits : Nat} {machine next last : Machine (Session ω V) V ρ}
  {before between after : Session ω V}

namespace Graph

/-- All functions of a graph are executed in order, wherever an interpretation comes by. -/
structure Orderly (graph : Graph (Session ω V) V V ρ) : Prop where
  leaves : ∀ other produce, graph.Unfolds other → other.shape = .leaf produce →
    Deferral.Orderly produce
  binds : ∀ other predecessor resume value, graph.Unfolds other →
    other.shape = .bind predecessor resume → Deferral.Orderly (resume value)

end Graph

namespace Machine

/-- What a machine is about to visit and what waits on its stack belongs to the unfolding of a
graph. -/
structure Within (graph : Graph (Session ω V) V V ρ) (machine : Machine (Session ω V) V ρ) :
    Prop where
  current : graph.Unfolds machine.current
  waiting : ∀ resume ∈ machine.pending.waiting, ∃ other predecessor,
    graph.Unfolds other ∧ other.shape = .bind predecessor resume

theorem within_start (graph : Graph (Session ω V) V V ρ) : (start graph).Within graph :=
  ⟨.self, fun _ mem => nomatch mem⟩

theorem Within.visit (within : machine.Within graph)
    (moved : machine.visit before = some (.ok (.moved next), between)) : next.Within graph := by
  have visits := (visits_iff _ _ _ _).mp moved
  cases visits with
  | descends shape_eq =>
      refine ⟨.predecessor within.current shape_eq, fun resume mem => ?_⟩
      rcases List.mem_cons.mp mem with rfl | mem
      · exact ⟨_, _, within.current, shape_eq⟩
      · exact within.waiting resume mem
  | resumes shape_eq produced popped resumed =>
      rcases Pending.pop?_eq_some_iff.mp popped with ⟨waiting_eq, _, _⟩
      rcases within.waiting _ (waiting_eq ▸ List.mem_cons_self) with
        ⟨other, predecessor, unfolds, bind_eq⟩
      refine ⟨.answer unfolds bind_eq resumed, fun resume mem => ?_⟩
      exact within.waiting resume (waiting_eq ▸ List.mem_cons_of_mem _ mem)

/-- A visit executes the calls of one node. -/
theorem Within.orderly (within : machine.Within graph) (orderly : graph.Orderly) :
    Orderly machine.visit := by
  rcases shape_eq : machine.current.shape with produce | ⟨predecessor, resume⟩
  · rw [visit_of_leaf shape_eq]
    refine (orderly.leaves _ _ within.current shape_eq).bind fun value => ?_
    rcases popped : machine.pending.pop? with _ | ⟨resume, pending⟩
    · exact .pure _
    · rcases Pending.pop?_eq_some_iff.mp popped with ⟨waiting_eq, _, _⟩
      rcases within.waiting resume (waiting_eq ▸ List.mem_cons_self) with
        ⟨other, predecessor, unfolds, bind_eq⟩
      exact (orderly.binds _ _ _ value unfolds bind_eq).bind fun _ => .pure _
  · rw [visit_of_bind shape_eq]
    exact .pure _

/-- What is heard at the head of the loop is well nested, so every interpretation that was started
in the visits made so far has been left. -/
theorem Reaches.heard (reaches : Reaches visits machine before last after)
    (within : machine.Within graph) (orderly : graph.Orderly) :
    ∃ events, after.heard = before.heard ++ events ∧ Inside events := by
  induction reaches with
  | start => exact ⟨[], (List.append_nil _).symm, .nothing⟩
  | visit moved _ ih =>
      rcases within.orderly orderly _ _ _ moved with ⟨events, executes⟩
      rcases ih (within.visit moved) with ⟨more, heard, inside⟩
      refine ⟨events ++ more, ?_, executes.inside.append inside⟩
      rw [heard, executes.heard, List.append_assoc]

theorem Within.orderly_drive (within : machine.Within graph) (orderly : graph.Orderly) :
    Orderly machine.drive := by
  intro before ending after driven
  -- The loop has no structure to induct on, but a run that answers has finitely many visits.
  obtain ⟨visits, ends⟩ : ∃ visits, Ends visits machine before ending after :=
    exists_ends_of_drive _ _ _ driven
  clear driven
  induction ends with
  | finished finished =>
      rcases within.orderly orderly _ _ _ finished with ⟨events, executes⟩
      rw [drive]
      exact ⟨_, .bind executes (.quiet rfl rfl)⟩
  | panicked panicked =>
      rcases within.orderly orderly _ _ _ panicked with ⟨events, executes⟩
      rw [drive]
      exact ⟨_, .bindPanics executes⟩
  | visit moved _ ih =>
      rcases within.orderly orderly _ _ _ moved with ⟨events, executes⟩
      rcases ih (within.visit moved) with ⟨more, rest⟩
      rw [drive]
      exact ⟨_, .bind executes rest⟩

theorem Within.orderly_driveWithin (allowed : Nat) (within : machine.Within graph)
    (orderly : graph.Orderly) : Orderly (machine.driveWithin allowed) := by
  induction allowed generalizing machine with
  | zero => exact .pure _
  | succ allowed ih =>
      refine (within.orderly orderly).bind_of_returned fun before visited between moved => ?_
      rcases visited with next | ⟨value, stats⟩
      · exact ih (within.visit moved)
      · exact .pure _

end Machine

namespace Graph.Orderly

theorem loop (orderly : graph.Orderly) (options : RunOptions) :
    Deferral.Orderly (graph.loop options) := by
  have within := Machine.within_start graph
  rcases options with ⟨_ | limit, capacity⟩
  · exact (within.orderly_drive orderly).map _
  · exact within.orderly_driveWithin _ orderly

theorem interpret (orderly : graph.Orderly) (options : RunOptions) :
    Deferral.Orderly (graph.interpret options) := by
  intro before ending after interpreted
  rcases interpret_eq_some_iff.mp interpreted with ⟨between, halts, rfl⟩
  rcases orderly.loop options _ _ _ halts.loop_eq with ⟨inside, visits⟩
  exact ⟨_, .interpret halts visits⟩

theorem run (orderly : graph.Orderly) : Deferral.Orderly graph.run := by
  rw [run_eq_interpret]
  refine (orderly.interpret .unbounded).bind fun halt => ?_
  cases halt with
  | finished value stats => exact .pure value
  | limitReached stats pending =>
      refine .quiet fun before ending after panicked => ?_
      cases panicked
      rfl

theorem tryRun (orderly : graph.Orderly) : Deferral.Orderly graph.tryRun := by
  intro before ending after tried
  have tried_eq := tryRun_apply graph before
  rw [tried] at tried_eq
  rcases Option.map_eq_some_iff.mp tried_eq.symm with ⟨⟨reason | value, between⟩, ran, same⟩
  · cases same
    have halts := run_eq_error_iff.mp ran
    rcases orderly.loop .unbounded _ _ _ halts.loop_eq with ⟨inside, visits⟩
    exact ⟨_, .capture halts visits⟩
  · cases same
    rcases orderly.run.map Except.ok _ _ _ (Call.map_eq_ok_iff.mpr ⟨value, ran, rfl⟩) with
      ⟨events, executes⟩
    exact ⟨events, .alike (tried.trans executes.answered.symm) executes⟩

theorem runs (orderly : graph.Orderly) {α : Type} {call : Call (Session ω V) α}
    (runs : graph.Runs call) : Deferral.Orderly call := by
  cases runs with
  | run => exact orderly.run
  | runWith options =>
      rw [runWith_eq_interpret]
      exact (Orderly.reserve _ _).bind fun _ => (orderly.interpret options).map _
  | tryRun => exact orderly.tryRun

end Graph.Orderly

end Visits

/-- Every nestable call is executed, by induction on what it is made of. -/
theorem Nestable.orderly {α : Type} {call : Call (Session ω V) α} (nestable : Nestable call) :
    Orderly call := by
  induction nestable with
  | quiet silent => exact .quiet silent
  | bind _ _ ih_first ih_rest => exact ih_first.bind ih_rest
  | attempt _ ih => exact ih.attempt
  | runs runs _ _ ih_leaves ih_binds =>
      have orderly : Graph.Orderly _ := ⟨ih_leaves, ih_binds⟩
      exact orderly.runs runs
  | alike _ _ same ih => exact .alike ih same

theorem Graph.Nestable.orderly {ρ : Type} [Equations ρ (Session ω V) V V]
    {graph : Graph (Session ω V) V V ρ} (nestable : graph.Nestable) : graph.Orderly where
  leaves other produce unfolds shape_eq := (nestable.leaves other produce unfolds shape_eq).orderly
  binds other predecessor resume value unfolds shape_eq :=
    (nestable.binds other predecessor resume value unfolds shape_eq).orderly

end Deferral

import Deferral.Future.AsyncGraph
import Deferral.Proofs.Concurrent.Following

/-!
# Blind graphs

A graph follows another one when their nodes, all the way down, follow each other; a graph that
follows itself is blind to what the worlds may differ in. The run of a graph is then followed by the
run of the other. While it is suspended, the continuations that wait and the leaf that is not
finished follow those of the other run, so the next poll finds the two runs just as the first one
did.
-/

namespace Deferral

variable {σ V ρ : Type} [Equations ρ σ (Future σ V ρ) V]

/-- Two leaves that yield the same value when they are visited now. -/
def YieldsSame (same : σ → σ → Prop) (node : AsyncGraph σ V ρ) (before : σ)
    (node' : AsyncGraph σ V ρ) (before' : σ) : Prop :=
  ∃ (produce produce' : Call σ (Future σ V ρ)) (value : V) (after after' : σ),
    node.shape = .leaf produce ∧ node'.shape = .leaf produce' ∧
    produce before = some (.ok (.ready value), after) ∧
    produce' before' = some (.ok (.ready value), after') ∧ same after after'

/-- Two graphs that runs may visit next, each in its world. -/
def GoesOn (same : σ → σ → Prop) (related : AsyncGraph σ V ρ → AsyncGraph σ V ρ → Prop)
    (node : AsyncGraph σ V ρ) (before : σ) (node' : AsyncGraph σ V ρ) (before' : σ) : Prop :=
  related node node' ∨ YieldsSame same node before node' before'

/-- Two continuations that answer alike in worlds that are the same, with graphs that are related.
-/
def ContinuationsFollow (same : σ → σ → Prop)
    (related : AsyncGraph σ V ρ → AsyncGraph σ V ρ → Prop)
    (resume resume' : Graph.Continuation σ (Future σ V ρ) V ρ) : Prop :=
  ∀ value ⦃before before'⦄, same before before' →
    Followed same (GoesOn same related) (resume value before) (resume' value before')

variable [Host σ V]

/-- What is reported is reported in both worlds. -/
def KeptByEvents (same : σ → σ → Prop) : Prop :=
  ∀ event ⦃before before'⦄, same before before' →
    same (Host.emit event before) (Host.emit event before')

/-- Nodes of the same kind whose parts follow each other. -/
inductive NodesFollow (same : σ → σ → Prop)
    (related : AsyncGraph σ V ρ → AsyncGraph σ V ρ → Prop) :
    Shape σ (Future σ V ρ) V (AsyncGraph σ V ρ) →
      Shape σ (Future σ V ρ) V (AsyncGraph σ V ρ) → Prop
  | leaf {produce produce' : Call σ (Future σ V ρ)}
      (produces : CallsFollow same (FuturesFollow same) produce produce') :
      NodesFollow same related (.leaf produce) (.leaf produce')
  | bind {predecessor predecessor' : AsyncGraph σ V ρ}
      {resume resume' : Graph.Continuation σ (Future σ V ρ) V ρ}
      (predecessors : related predecessor predecessor')
      (continuations : ContinuationsFollow same related resume resume') :
      NodesFollow same related (.bind predecessor resume) (.bind predecessor' resume')

/-- Related graphs have nodes that follow each other, with related graphs below. -/
def ClosedUnder (same : σ → σ → Prop) (related : AsyncGraph σ V ρ → AsyncGraph σ V ρ → Prop) :
    Prop :=
  ∀ ⦃graph graph'⦄, related graph graph' → NodesFollow same related graph.shape graph'.shape

/-- The second graph does what the first one does, as far as `same` goes. -/
def GraphsFollow (same : σ → σ → Prop) (graph graph' : AsyncGraph σ V ρ) : Prop :=
  ∃ related, ClosedUnder same related ∧ related graph graph'

/-- A graph that cannot tell worlds apart that are the same in the given sense. -/
def AsyncGraph.Blind (same : σ → σ → Prop) (graph : AsyncGraph σ V ρ) : Prop :=
  GraphsFollow same graph graph

/-- A run that visits a node is followed by one that visits another now, or in whatever worlds it is
polled. A run that waits for a leaf is followed in whatever worlds it is polled. -/
inductive RunsFollow (same : σ → σ → Prop)
    (related : AsyncGraph σ V ρ → AsyncGraph σ V ρ → Prop) :
    Future σ V ρ → σ → Future σ V ρ → σ → Prop
  | future {future future' : Future σ V ρ} {before before' : σ}
      (follows : FuturesFollow same future future') :
      RunsFollow same related future before future' before'
  | visit {node node' : AsyncGraph σ V ρ} {pending pending'} {before before' : σ}
      (next : GoesOn same related node before node' before')
      (pendings : PendingAlike (ContinuationsFollow same related) pending pending') :
      RunsFollow same related (.visit node pending) before (.visit node' pending') before'
  | await {leaf leaf' : Future σ V ρ} {pending pending'} {before before' : σ}
      (leaves : FuturesFollow same leaf leaf')
      (pendings : PendingAlike (ContinuationsFollow same related) pending pending') :
      RunsFollow same related (.await leaf pending) before (.await leaf' pending') before'

section Step

variable {same : σ → σ → Prop} {related : AsyncGraph σ V ρ → AsyncGraph σ V ρ → Prop}
  {before before' : σ}

/-- Runs that follow each other in whatever worlds they are polled. -/
def RunsFollowAlways (same : σ → σ → Prop)
    (related : AsyncGraph σ V ρ → AsyncGraph σ V ρ → Prop) (future future' : Future σ V ρ) : Prop :=
  ∀ before before', RunsFollow same related future before future' before'

/- What is said here of polls is said of approximations of them, which are known to be followed
where runs follow each other. -/
variable {approx : Future σ V ρ → Call σ (Poll V (Future σ V ρ))}
  (followed : ∀ {future before future' before'}, same before before' →
    RunsFollow same related future before future' before' →
      FollowedBy same (PollAlike (RunsFollowAlways same related))
        (approx future before) (future'.poll before'))

include followed

theorem visit_followed (closed : ClosedUnder same related) {node node' : AsyncGraph σ V ρ}
    {pending pending'} (next : GoesOn same related node before node' before')
    (pendings : PendingAlike (ContinuationsFollow same related) pending pending')
    (worlds : same before before') :
    FollowedBy same (PollAlike (RunsFollowAlways same related))
      (Future.pollWith approx (.visit node pending) before)
      ((Future.visit node' pending').poll before') := by
  rw [Future.poll_eq_pollWith]
  simp only [Future.pollWith]
  rcases next with rel |
    ⟨_, _, value, after, after', shape_eq, shape_eq', produced, produced', last⟩
  · have nodes := closed rel
    generalize node.shape = shape at nodes
    generalize node'.shape = shape' at nodes
    cases nodes with
    | leaf produces =>
        refine (produces worlds).bind fun leaf _ leaf' _ worlds leaves => ?_
        exact followed worlds (.await leaves pendings)
    | bind predecessors continuations =>
        exact followed worlds (.visit (.inl predecessors) (pendings.push continuations))
  · simp only [shape_eq, shape_eq']
    rw [Call.bind_of_ok produced, Call.bind_of_ok produced']
    exact followed last (.await (.ready value) pendings)

theorem await_followed (emits : KeptByEvents same)
    {leaf leaf' : Future σ V ρ} {pending pending'} (leaves : FuturesFollow same leaf leaf')
    (pendings : PendingAlike (ContinuationsFollow same related) pending pending')
    (worlds : same before before')
    (polls : ∀ future, Call.Below (approx future) future.poll) :
    FollowedBy same (PollAlike (RunsFollowAlways same related))
      (Future.pollWith approx (.await leaf pending) before)
      ((Future.await leaf' pending').poll before') := by
  rw [Future.poll_eq_pollWith]
  have leaves_polled : FollowedBy same (PollAlike (FuturesFollow same)) (approx leaf before)
      (leaf'.poll before') := by
    intro found answered
    exact leaves.kept worlds found (polls leaf before found answered)
  refine leaves_polled.bind fun polled after polled' after' worlds polls => ?_
  cases polls with
  | pending rests =>
      refine .pure worlds (.pending fun _ _ => ?_)
      exact .await rests pendings
  | ready value =>
      rcases pendings.pop? with ⟨popped, popped'⟩ |
        ⟨resume, rest, resume', rest', popped, popped', continuations, rests⟩
      · simp only [popped, popped', pendings.peak_eq]
        intro found answered
        cases answered
        exact .returned (emits _ worlds) (.ready value)
      · simp only [popped, popped']
        refine (continuations value worlds).bind fun node _ node' _ worlds next => ?_
        exact followed worlds (.visit next rests)

end Step

section Runs

variable {same : σ → σ → Prop} (emits : KeptByEvents same)

include emits

theorem RunsFollow.followed {related : AsyncGraph σ V ρ → AsyncGraph σ V ρ → Prop}
    (closed : ClosedUnder same related) {future future' : Future σ V ρ} {before before' : σ}
    (runs : RunsFollow same related future before future' before') (worlds : same before before') :
    FollowedBy same (PollAlike (RunsFollowAlways same related))
      (future.poll before) (future'.poll before') := by
  intro found answered
  refine Future.poll_induction (fun future before found => ∀ future' before', same before before' →
    RunsFollow same related future before future' before' →
      Follows same (fun polled _ polled' _ =>
        PollAlike (RunsFollowAlways same related) polled polled') found (future'.poll before'))
    ?_ future before found answered future' before' worlds runs
  intro approx below ih future before found answered future' before' worlds runs
  have followed : ∀ {future before future' before'}, same before before' →
      RunsFollow same related future before future' before' →
        FollowedBy same (PollAlike (RunsFollowAlways same related))
          (approx future before) (future'.poll before') :=
    fun worlds runs found answered => ih _ _ found answered _ _ worlds runs
  cases runs with
  | future follows =>
      -- What is known of these two concerns polls themselves, not approximations of them.
      have real := Future.pollWith_below below future before found answered
      rw [← Future.poll_eq_pollWith] at real
      refine Followed.mono (follows.kept worlds) ?_ found real
      exact fun _ _ _ _ polls => polls.mono fun _ _ rests _ _ => .future rests
  | visit next pendings =>
      exact visit_followed followed closed next pendings worlds found answered
  | await leaves pendings =>
      exact await_followed followed emits leaves pendings worlds below found answered

/-- The run of a graph is followed by the run of a graph that follows it. -/
theorem GraphsFollow.runs {graph graph' : AsyncGraph σ V ρ}
    (follows : GraphsFollow same graph graph') :
    FuturesFollow same (.ofGraph graph) (.ofGraph graph') := by
  rcases follows with ⟨related, closed, rel⟩
  refine ⟨RunsFollowAlways same related, ?_, fun _ _ => .visit (.inl rel) .empty⟩
  exact fun _ _ runs _ _ worlds => (runs _ _).followed emits closed worlds

end Runs

section Made

variable {same : σ → σ → Prop}

theorem NodesFollow.mono {related weaker : AsyncGraph σ V ρ → AsyncGraph σ V ρ → Prop}
    {shape shape' : Shape σ (Future σ V ρ) V (AsyncGraph σ V ρ)}
    (nodes : NodesFollow same related shape shape')
    (weaken : ∀ graph graph', related graph graph' → weaker graph graph') :
    NodesFollow same weaker shape shape' := by
  cases nodes with
  | leaf produces => exact .leaf produces
  | bind predecessors continuations =>
      refine .bind (weaken _ _ predecessors) fun value _ _ worlds => ?_
      refine (continuations value worlds).mono fun _ _ _ _ next => ?_
      exact next.imp (weaken _ _) id

namespace GraphsFollow

variable {graph graph' : AsyncGraph σ V ρ}

theorem nodes (follows : GraphsFollow same graph graph') :
    NodesFollow same (GraphsFollow same) graph.shape graph'.shape := by
  rcases follows with ⟨related, closed, rel⟩
  exact (closed rel).mono fun _ _ rel => ⟨related, closed, rel⟩

theorem of_nodes (nodes : NodesFollow same (GraphsFollow same) graph.shape graph'.shape) :
    GraphsFollow same graph graph' := by
  refine ⟨fun first second => first = graph ∧ second = graph' ∨ GraphsFollow same first second,
    ?_, .inl ⟨rfl, rfl⟩⟩
  rintro _ _ (⟨rfl, rfl⟩ | follows)
  · exact nodes.mono fun _ _ follows => .inr follows
  · exact follows.nodes.mono fun _ _ follows => .inr follows

end GraphsFollow

namespace AsyncGraph.Blind

/-- No graph can tell a world from itself. -/
theorem eq (graph : AsyncGraph σ V ρ) : Blind Eq graph := by
  refine ⟨Eq, ?_, rfl⟩
  rintro graph _ rfl
  rcases graph.shape with produce | ⟨predecessor, resume⟩
  · apply NodesFollow.leaf
    rintro before _ rfl
    exact .refl _ fun leaf _ => ⟨Eq, keptByPolls_eq, rfl⟩
  · apply NodesFollow.bind rfl
    rintro value before _ rfl
    exact .refl _ fun node _ => .inl rfl

theorem fromAsync {action : Call σ (Future σ V ρ)}
    (actions : CallsFollow same (FuturesFollow same) action action) :
    Blind same (AsyncGraph.fromAsync action) :=
  .of_nodes (.leaf actions)

theorem flatMap {graph : AsyncGraph σ V ρ}
    {function : Graph.Continuation σ (Future σ V ρ) V ρ} (blind : graph.Blind same)
    (functions : ContinuationsFollow same (GraphsFollow same) function function) :
    Blind same (Graph.flatMap graph function) :=
  .of_nodes (.bind blind functions)

/-- A leaf that takes what was left for it yields the same value in each of the two worlds. -/
theorem map {graph : AsyncGraph σ V ρ} {function : V → Call σ V} (blind : graph.Blind same)
    (functions : ∀ value, CallsFollow same Eq (function value) (function value))
    (leaves : ∀ value ⦃before before'⦄, same before before' →
      same (Host.leave value before).2 (Host.leave value before').2) :
    Blind same (Graph.map graph function) := by
  refine blind.flatMap fun value before before' worlds => ?_
  refine (functions value worlds).bind ?_
  rintro result after _ after' worlds rfl found answered
  cases answered
  refine .returned (leaves result worlds) (.inr ?_)
  refine ⟨_, _, result, after, after', rfl, rfl, ?_, ?_, worlds⟩
  · exact Call.map_eq_ok_iff.mpr ⟨result, Host.takeOnce_leave result after, rfl⟩
  · exact Call.map_eq_ok_iff.mpr ⟨result, Host.takeOnce_leave result after', rfl⟩

end AsyncGraph.Blind

end Made

end Deferral

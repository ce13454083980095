import Deferral.Future.AsyncGraph
import Deferral.Proofs.Lockstep.Future

/-!
# Asynchronous runs in lockstep

The run of an asynchronous graph is a future. When two graphs are in lockstep, their runs visit the
same nodes in the same poll, suspend at leaves that are alike with stacks that are alike, and so are
alike themselves.

A leaf may run graphs of the same family again, round after round, so that the futures of the leaves
and the runs of the graphs depend on each other. `BuiltAlike` holds for all of them at once.
-/

namespace Deferral

variable {ω V ρ ρ' : Type}

section Built

variable [Equations ρ (Session ω V) (Future (Session ω V) V ρ) V]
  [Equations ρ' (Session ω V) (Future (Session ω V) V ρ') V]

/-- What a round of a repetition does with its value. -/
def AsyncGraph.nextRound {σ α : Type} [Host σ V] (body : AsyncGraph σ V ρ) (accept : V → Call σ α)
    (collect : List α → V) (count left : Nat) (items : List α) (value : V) :
    Call σ (Future σ V ρ) := do
  let item ← accept value
  return rounds body accept collect count left (item :: items)

/-- Futures that are alike because they are known to be, or because they are runs of graphs in
lockstep, which may be suspended, or rounds of such runs. -/
inductive BuiltAlike (raised : Panic → Prop)
    (related : AsyncGraph (Session ω V) V ρ → AsyncGraph (Session ω V) V ρ' → Prop) :
    Future (Session ω V) V ρ → Future (Session ω V) V ρ' → Prop
  | alike {future : Future (Session ω V) V ρ} {future' : Future (Session ω V) V ρ'}
      (futures : FuturesAlike raised future future') : BuiltAlike raised related future future'
  | run {graph : AsyncGraph (Session ω V) V ρ} {graph' : AsyncGraph (Session ω V) V ρ'}
      (graphs : related graph graph') :
      BuiltAlike raised related (.ofGraph graph) (.ofGraph graph')
  | suspended {leaf : Future (Session ω V) V ρ} {leaf' : Future (Session ω V) V ρ'}
      {pending pending'} (leaves : BuiltAlike raised related leaf leaf')
      (pendings : PendingAlike (ContinuationsAlike raised related) pending pending') :
      BuiltAlike raised related (.await leaf pending) (.await leaf' pending')
  | rounds {body : AsyncGraph (Session ω V) V ρ} {body' : AsyncGraph (Session ω V) V ρ'}
      {α : Type} {accept : V → Call (Session ω V) α} {collect : List α → V}
      (bodies : related body body')
      (accepts : ∀ value, (accept value).Alike raised Eq (accept value)) (count left : Nat)
      (items : List α) :
      BuiltAlike raised related (AsyncGraph.rounds body accept collect count left items)
        (AsyncGraph.rounds body' accept collect count left items)
  | round {first : Future (Session ω V) V ρ} {first' : Future (Session ω V) V ρ'}
      {body : AsyncGraph (Session ω V) V ρ} {body' : AsyncGraph (Session ω V) V ρ'}
      {α : Type} {accept : V → Call (Session ω V) α} {collect : List α → V}
      (firsts : BuiltAlike raised related first first') (bodies : related body body')
      (accepts : ∀ value, (accept value).Alike raised Eq (accept value)) (count left : Nat)
      (items : List α) :
      BuiltAlike raised related
        (first.followedBy (AsyncGraph.nextRound body accept collect count left items))
        (first'.followedBy (AsyncGraph.nextRound body' accept collect count left items))

/-- Two futures that are polled in lockstep, each in its world: a run that visits a node, or futures
that are alike in any world. -/
inductive PolledAlike (raised : Panic → Prop)
    (related : AsyncGraph (Session ω V) V ρ → AsyncGraph (Session ω V) V ρ' → Prop) :
    Future (Session ω V) V ρ → Session ω V → Future (Session ω V) V ρ' → Session ω V → Prop
  | visit {node : AsyncGraph (Session ω V) V ρ} {node' : AsyncGraph (Session ω V) V ρ'}
      {pending pending'} {before before' : Session ω V}
      (next : Next related node before node' before')
      (pendings : PendingAlike (ContinuationsAlike raised related) pending pending') :
      PolledAlike raised related (.visit node pending) before (.visit node' pending') before'
  | built {future : Future (Session ω V) V ρ} {future' : Future (Session ω V) V ρ'}
      {before before' : Session ω V} (futures : BuiltAlike raised related future future')
      (same : before.Same before') : PolledAlike raised related future before future' before'

variable {raised : Panic → Prop}
  {related : AsyncGraph (Session ω V) V ρ → AsyncGraph (Session ω V) V ρ' → Prop}
  {future : Future (Session ω V) V ρ} {future' : Future (Session ω V) V ρ'}
  {before before' : Session ω V}

theorem PendingAlike.symm_continuations {pending pending'}
    (pendings : PendingAlike (ContinuationsAlike raised related) pending pending') :
    PendingAlike (ContinuationsAlike raised (flip related)) pending' pending :=
  ⟨pendings.symm.waiting.imp fun _ _ continuations => ContinuationsAlike.symm continuations,
    pendings.symm.depth_eq, pendings.symm.peak_eq⟩

theorem BuiltAlike.symm (futures : BuiltAlike raised related future future') :
    BuiltAlike raised (flip related) future' future := by
  induction futures with
  | alike futures => exact .alike futures.symm
  | run graphs => exact .run graphs
  | suspended _ pendings ih => exact .suspended ih pendings.symm_continuations
  | @rounds body body' _ _ _ bodies accepts count left items =>
      have flipped : flip related body' body := bodies
      exact .rounds flipped accepts count left items
  | @round _ _ body body' _ _ _ _ bodies accepts count left items ih =>
      have flipped : flip related body' body := bodies
      exact .round ih flipped accepts count left items

theorem PolledAlike.symm (polled : PolledAlike raised related future before future' before') :
    PolledAlike raised (flip related) future' before' future before := by
  cases polled with
  | visit next pendings => exact .visit next.symm pendings.symm_continuations
  | built futures same => exact .built futures.symm same.symm

section Step

/- What is said here of polls is said of approximations of them, which are known to be matched where
futures are in lockstep. -/
variable {approx : Future (Session ω V) V ρ →
    Call (Session ω V) (Poll V (Future (Session ω V) V ρ))}
  (matched : ∀ {future before future' before'},
    PolledAlike raised related future before future' before' →
      Matched raised (Alongside (PollAlike (BuiltAlike raised related))) (approx future before)
        (future'.poll before'))

include matched

theorem visit_matched (lockstep : Lockstep raised (BuiltAlike raised related) related)
    {node : AsyncGraph (Session ω V) V ρ} {node' : AsyncGraph (Session ω V) V ρ'}
    {pending pending'} (next : Next related node before node' before')
    (pendings : PendingAlike (ContinuationsAlike raised related) pending pending') :
    Matched raised (Alongside (PollAlike (BuiltAlike raised related)))
      (Future.pollWith approx (.visit node pending) before)
      ((Future.visit node' pending').poll before') := by
  rw [Future.poll_eq_pollWith]
  simp only [Future.pollWith]
  cases lockstep.nodes (fun value => .alike (.ready value)) next with
  | leaf shape_eq shape_eq' answers =>
      rw [shape_eq, shape_eq']
      refine Matched.bind (.of_alike answers) fun leaf after leaf' after' leaves => ?_
      exact matched (.built (.suspended leaves.1 pendings) leaves.2)
  | bind shape_eq shape_eq' predecessors continuations same =>
      rw [shape_eq, shape_eq']
      exact matched (.visit ⟨same, .inl predecessors⟩ (pendings.push continuations))

theorem await_matched {leaf : Future (Session ω V) V ρ} {leaf' : Future (Session ω V) V ρ'}
    {pending pending'} (leaves : BuiltAlike raised related leaf leaf')
    (pendings : PendingAlike (ContinuationsAlike raised related) pending pending')
    (same : before.Same before') :
    Matched raised (Alongside (PollAlike (BuiltAlike raised related)))
      (Future.pollWith approx (.await leaf pending) before)
      ((Future.await leaf' pending').poll before') := by
  rw [Future.poll_eq_pollWith]
  refine Matched.bind (matched (.built leaves same)) ?_
  rintro polled after polled' after' ⟨polls, same⟩
  cases polls with
  | pending rests => exact .of_alike (.returned ⟨.pending (.suspended rests pendings), same⟩)
  | ready value =>
      rcases pendings.pop? with ⟨popped, popped'⟩ |
        ⟨resume, rest, resume', rest', popped, popped', continuations, rests⟩
      · simp only [popped, popped', pendings.peak_eq]
        exact .of_alike (.returned ⟨.ready value, same.emit _⟩)
      · simp only [popped, popped']
        refine Matched.bind (.of_alike (continuations value same)) ?_
        exact fun node last node' last' next => matched (.visit next rests)

theorem round_matched {first : Future (Session ω V) V ρ} {first' : Future (Session ω V) V ρ'}
    {body : AsyncGraph (Session ω V) V ρ} {body' : AsyncGraph (Session ω V) V ρ'}
    {α : Type} {accept : V → Call (Session ω V) α} {collect : List α → V}
    (firsts : BuiltAlike raised related first first') (bodies : related body body')
    (accepts : ∀ value, (accept value).Alike raised Eq (accept value)) (count left : Nat)
    (items : List α) (same : before.Same before') :
    Matched raised (Alongside (PollAlike (BuiltAlike raised related)))
      (Future.pollWith approx
        (first.followedBy (AsyncGraph.nextRound body accept collect count left items)) before)
      ((first'.followedBy
        (AsyncGraph.nextRound body' accept collect count left items)).poll before') := by
  rw [Future.poll_eq_pollWith]
  refine Matched.bind (matched (.built firsts same)) ?_
  rintro polled after polled' after' ⟨polls, same⟩
  cases polls with
  | pending rests =>
      refine .of_alike (.returned ⟨.pending ?_, same⟩)
      exact .round rests bodies accepts count left items
  | ready value =>
      simp only [AsyncGraph.nextRound, bind_assoc, pure_bind]
      refine Matched.bind (.of_alike (accepts value same)) ?_
      rintro item last _ last' ⟨rfl, same⟩
      exact matched (.built (.rounds bodies accepts count left (item :: items)) same)

theorem rounds_matched {body : AsyncGraph (Session ω V) V ρ}
    {body' : AsyncGraph (Session ω V) V ρ'} {α : Type} {accept : V → Call (Session ω V) α}
    {collect : List α → V} (bodies : related body body')
    (accepts : ∀ value, (accept value).Alike raised Eq (accept value)) (count left : Nat)
    (items : List α) (same : before.Same before') :
    Matched raised (Alongside (PollAlike (BuiltAlike raised related)))
      (Future.pollWith approx (AsyncGraph.rounds body accept collect count left items) before)
      ((AsyncGraph.rounds body' accept collect count left items).poll before') := by
  rw [Future.poll_eq_pollWith]
  cases left with
  | zero => exact .of_alike (.returned ⟨.ready _, same⟩)
  | succ left =>
      simp only [AsyncGraph.rounds, Future.after, Future.pollWith, bind_assoc, pure_bind]
      refine Matched.bind (?_ : Matched raised (Alongside Eq) _ _) ?_
      · exact .of_alike (Call.Alike.report _ same)
      · rintro _ after _ after' ⟨_, same⟩
        exact matched (.built (.round (.run bodies) bodies accepts count left items) same)

end Step

theorem PolledAlike.matched (lockstep : Lockstep raised (BuiltAlike raised related) related)
    (polled : PolledAlike raised related future before future' before') :
    Matched raised (Alongside (PollAlike (BuiltAlike raised related))) (future.poll before)
      (future'.poll before') := by
  intro answer answered
  refine Future.poll_induction (fun future before answer => ∀ future' before',
    PolledAlike raised related future before future' before' →
      AnswersAlike raised (Alongside (PollAlike (BuiltAlike raised related))) (some answer)
        (future'.poll before')) ?_ future before answer answered future' before' polled
  intro approx below ih future before answer answered future' before' polled
  have matched : ∀ {future before future' before'},
      PolledAlike raised related future before future' before' →
        Matched raised (Alongside (PollAlike (BuiltAlike raised related))) (approx future before)
          (future'.poll before') :=
    fun polled answer answered => ih _ _ answer answered _ _ polled
  cases polled with
  | visit next pendings => exact visit_matched matched lockstep next pendings answer answered
  | built futures same =>
      cases futures with
      | alike futures =>
          -- What is known of these two concerns polls themselves, not approximations of them.
          have real := Future.pollWith_below below future before answer answered
          rw [← Future.poll_eq_pollWith] at real
          have polls := futures.poll same
          rw [real] at polls
          refine polls.mono fun _ _ _ _ values => ?_
          exact ⟨values.1.mono fun _ _ rests => .alike rests, values.2⟩
      | run graphs =>
          exact visit_matched matched lockstep ⟨same, .inl graphs⟩ .empty answer answered
      | suspended leaves pendings =>
          exact await_matched matched leaves pendings same answer answered
      | rounds bodies accepts count left items =>
          exact rounds_matched matched bodies accepts count left items same answer answered
      | round firsts bodies accepts count left items =>
          exact round_matched matched firsts bodies accepts count left items same answer answered

theorem PolledAlike.poll (lockstep : Lockstep raised (BuiltAlike raised related) related)
    (polled : PolledAlike raised related future before future' before') :
    AnswersAlike raised (Alongside (PollAlike (BuiltAlike raised related))) (future.poll before)
      (future'.poll before') := by
  have flipped : Lockstep raised (BuiltAlike raised (flip related)) (flip related) :=
    lockstep.symm.mono fun _ _ leaves => BuiltAlike.symm leaves
  refine .of_matched (polled.matched lockstep) fun answer answered => ?_
  refine (polled.symm.matched flipped answer answered).mono ?_
  exact fun _ _ _ _ values =>
    ⟨values.1.symm.mono fun _ _ rests => BuiltAlike.symm rests, values.2.symm⟩

/-- Nobody can tell runs in lockstep, or what is built from them, by polling. -/
theorem BuiltAlike.futures (lockstep : Lockstep raised (BuiltAlike raised related) related)
    (built : BuiltAlike raised related future future') : FuturesAlike raised future future' :=
  ⟨BuiltAlike raised related, built,
    fun _ _ built _ _ same => (PolledAlike.built built same).poll lockstep⟩

end Built

end Deferral

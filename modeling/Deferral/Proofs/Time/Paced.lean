import Deferral.Future.AsyncGraph
import Deferral.Proofs.Future.Steps
import Deferral.Proofs.Time.Clock

/-!
# Futures that take no time but for sleeping

A graph is paced if its leaves take no time, except for those that sleep. What a paced graph becomes
while it runs is awake or asleep: it is awake when nothing in it waits for the clock, and asleep in
the middle of one sleeping leaf. An awake run falls asleep only by visiting such a leaf, and an
asleep one wakes when its deadline has come. Every other step leaves the clock where it is.
-/

namespace Deferral

variable {σ V ρ : Type}

namespace Future

/-- The next step of a future visits a node, in the run itself or in one that a leaf of it drives.
-/
inductive Visits : Future σ V ρ → AsyncGraph σ V ρ → Prop
  | visit (node : AsyncGraph σ V ρ)
      (pending : Pending (Graph.Continuation σ (Future σ V ρ) V ρ)) :
      Visits (.visit node pending) node
  | chain {first : Future σ V ρ} {node : AsyncGraph σ V ρ} (visits : Visits first node)
      (next : V → Call σ (Future σ V ρ)) : Visits (.chain first next) node
  | await {leaf : Future σ V ρ} {node : AsyncGraph σ V ρ} (visits : Visits leaf node)
      (pending : Pending (Graph.Continuation σ (Future σ V ρ) V ρ)) :
      Visits (.await leaf pending) node

theorem value?_of_visits {future : Future σ V ρ} {node : AsyncGraph σ V ρ}
    (visits : future.Visits node) : future.value? = none := by
  cases visits <;> rfl

theorem Visits.unique {future : Future σ V ρ} {node other : AsyncGraph σ V ρ}
    (visits : future.Visits node) (others : future.Visits other) : node = other := by
  induction visits with
  | visit node pending =>
      cases others
      rfl
  | chain _ next ih =>
      rcases others with _ | others
      exact ih others
  | await _ pending ih =>
      rcases others with _ | _ | others
      exact ih others

end Future

variable [Host σ V]

/-- A continuation that takes no time and answers with paced graphs only. -/
structure ContinuationPaced (paced : AsyncGraph σ V ρ → Prop)
    (resume : Graph.Continuation σ (Future σ V ρ) V ρ) : Prop where
  takesNoTime : ∀ value, (resume value).TakesNoTime
  returns : ∀ value node, (resume value).CanReturn node → paced node

/-- What a sleeping leaf does when it is visited. -/
def AsyncGraph.fallAsleep [Unital V] (milliseconds : Nat) : Call σ (Future σ V ρ) := do
  Host.report (.delayStarted milliseconds)
  return .sleep (← Call.read (Host.deadline milliseconds)) Unital.unit

theorem AsyncGraph.fallAsleep_apply [Unital V] [VirtualClock σ] (milliseconds : Nat) (world : σ) :
    (fallAsleep milliseconds : Call σ (Future σ V ρ)) world =
      some (.ok (.sleep (Host.now world + VirtualClock.span σ milliseconds) Unital.unit),
        Host.emit (.delayStarted milliseconds) world) := by
  rw [← VirtualClock.now_emit (.delayStarted milliseconds) world, ← VirtualClock.deadline_eq]
  rfl

namespace Future

/-- Nothing in a future waits for the clock now, and what it does until it falls asleep takes no
time. -/
inductive Awake (paced : AsyncGraph σ V ρ → Prop) : Future σ V ρ → Prop
  | ready (value : V) : Awake paced (.ready value)
  | pause (times : Nat) {next : Future σ V ρ} (next_awake : Awake paced next) :
      Awake paced (.pause times next)
  | begin {call : Call σ (Future σ V ρ)} (takesNoTime : call.TakesNoTime)
      (returns : ∀ next, call.CanReturn next → Awake paced next) : Awake paced (.begin call)
  | chain {first : Future σ V ρ} {next : V → Call σ (Future σ V ρ)}
      (first_awake : Awake paced first) (takesNoTime : ∀ value, (next value).TakesNoTime)
      (returns : ∀ value rest, (next value).CanReturn rest → Awake paced rest) :
      Awake paced (.chain first next)
  | visit {node : AsyncGraph σ V ρ}
      {pending : Pending (Graph.Continuation σ (Future σ V ρ) V ρ)} (node_paced : paced node)
      (waiting : ∀ resume ∈ pending.waiting, ContinuationPaced paced resume) :
      Awake paced (.visit node pending)
  | await {leaf : Future σ V ρ} {pending : Pending (Graph.Continuation σ (Future σ V ρ) V ρ)}
      (leaf_awake : Awake paced leaf)
      (waiting : ∀ resume ∈ pending.waiting, ContinuationPaced paced resume) :
      Awake paced (.await leaf pending)

/-- A future waits for a moment of the clock, and will be awake then. -/
inductive Asleep (paced : AsyncGraph σ V ρ → Prop) (deadline : Nat) : Future σ V ρ → Prop
  | sleep (value : V) : Asleep paced deadline (.sleep deadline value)
  | chain {first : Future σ V ρ} {next : V → Call σ (Future σ V ρ)}
      (first_asleep : Asleep paced deadline first)
      (takesNoTime : ∀ value, (next value).TakesNoTime)
      (returns : ∀ value rest, (next value).CanReturn rest → Awake paced rest) :
      Asleep paced deadline (.chain first next)
  | await {leaf : Future σ V ρ} {pending : Pending (Graph.Continuation σ (Future σ V ρ) V ρ)}
      (leaf_asleep : Asleep paced deadline leaf)
      (waiting : ∀ resume ∈ pending.waiting, ContinuationPaced paced resume) :
      Asleep paced deadline (.await leaf pending)

/-- The next step of a future visits a leaf that sleeps so many milliseconds. -/
def FallsAsleep [Unital V] [Equations ρ σ (Future σ V ρ) V] (future : Future σ V ρ)
    (milliseconds : Nat) : Prop :=
  ∃ node, future.Visits node ∧ node.shape = .leaf (AsyncGraph.fallAsleep milliseconds)

end Future

/-- A node that takes no time unless it is a leaf that sleeps. -/
inductive PacedNode [Unital V] (paced : AsyncGraph σ V ρ → Prop) :
    Shape σ (Future σ V ρ) V (AsyncGraph σ V ρ) → Prop
  | work {produce : Call σ (Future σ V ρ)} (takesNoTime : produce.TakesNoTime)
      (returns : ∀ leaf, produce.CanReturn leaf → leaf.Awake paced) :
      PacedNode paced (.leaf produce)
  | sleep (milliseconds : Nat) : PacedNode paced (.leaf (AsyncGraph.fallAsleep milliseconds))
  | bind {predecessor : AsyncGraph σ V ρ}
      {resume : Graph.Continuation σ (Future σ V ρ) V ρ} (predecessor_paced : paced predecessor)
      (continuation_paced : ContinuationPaced paced resume) :
      PacedNode paced (.bind predecessor resume)

namespace Future

variable {paced : AsyncGraph σ V ρ → Prop} {future next rest : Future σ V ρ} {deadline : Nat}
  {wake : Wake} {before after : σ}

section Deliver

variable {pending : Pending (Graph.Continuation σ (Future σ V ρ) V ρ)}
  (waiting : ∀ resume ∈ pending.waiting, ContinuationPaced paced resume)

include waiting

theorem paced_of_pop {resume : Graph.Continuation σ (Future σ V ρ) V ρ}
    {below : Pending (Graph.Continuation σ (Future σ V ρ) V ρ)}
    (popped : pending.pop? = some (resume, below)) :
    ContinuationPaced paced resume ∧ ∀ resume ∈ below.waiting, ContinuationPaced paced resume := by
  rcases pending with ⟨_ | ⟨continuation, waiting⟩, depth, peak⟩
  · cases popped
  · cases popped
    exact List.forall_mem_cons.mp waiting

theorem deliver_takesNoTime [VirtualClock σ] (value : V) :
    (deliver value pending).TakesNoTime := by
  simp only [deliver]
  rcases popped : pending.pop? with _ | ⟨resume, below⟩
  · exact (Call.TakesNoTime.report _).bind fun _ => .pure _
  · exact ((paced_of_pop waiting popped).1.takesNoTime value).bind fun _ => .pure _

theorem awake_of_deliver {value : V} (returns : (deliver value pending).CanReturn next) :
    next.Awake paced := by
  simp only [deliver] at returns
  rcases popped : pending.pop? with _ | ⟨resume, below⟩
  · simp only [popped] at returns
    rcases Call.canReturn_bind returns with ⟨_, _, returns⟩
    obtain rfl := Call.canReturn_pure returns
    exact .ready value
  · simp only [popped] at returns
    rcases Call.canReturn_bind returns with ⟨node, resumed, returns⟩
    obtain rfl := Call.canReturn_pure returns
    rcases paced_of_pop waiting popped with ⟨continuation, waiting⟩
    exact .visit (continuation.returns value node resumed) waiting

end Deliver

theorem Asleep.value?_eq_none (asleep : future.Asleep paced deadline) : future.value? = none := by
  cases asleep <;> rfl

theorem Asleep.not_visits {node : AsyncGraph σ V ρ} (asleep : future.Asleep paced deadline) :
    ¬ future.Visits node := by
  intro visits
  induction asleep with
  | sleep value => cases visits
  | chain _ _ _ ih =>
      rcases visits with _ | visits
      exact ih visits
  | await _ _ ih =>
      rcases visits with _ | _ | visits
      exact ih visits

variable [Equations ρ σ (Future σ V ρ) V]

/-- Only a future that pauses is suspended while it is awake. It does not wait for the clock. -/
theorem Awake.suspended (awake : future.Awake paced)
    (stepped : future.step before = some (.ok (.suspended wake rest), after)) :
    wake = .soon ∧ Host.now after = Host.now before ∧ rest.Awake paced := by
  induction awake generalizing rest after with
  | ready value => cases stepped
  | pause times next_awake =>
      cases times with
      | zero => cases stepped
      | succ times =>
          cases stepped
          exact ⟨rfl, rfl, .pause times next_awake⟩
  | begin takesNoTime returns =>
      rcases Call.bind_eq_ok_iff.mp stepped with ⟨found, between, _, stepped⟩
      cases stepped
  | @chain first following first_awake takesNoTime returns ih =>
      rcases value_eq : first.value? with _ | value
      · rw [step_chain value_eq] at stepped
        rcases Stepped.suspended_of_map stepped with ⟨rest, first_stepped, rfl⟩
        rcases ih first_stepped with ⟨wake_eq, now_eq, rest_awake⟩
        exact ⟨wake_eq, now_eq, .chain rest_awake takesNoTime returns⟩
      · obtain rfl := eq_ready_of_value? value_eq
        rw [step_chain_ready] at stepped
        rcases Call.map_eq_ok_iff.mp stepped with ⟨_, _, stepped_eq⟩
        cases stepped_eq
  | @visit node pending node_paced waiting =>
      rcases shape_eq : node.shape with produce | ⟨predecessor, resume⟩
      · rw [step_visit_of_leaf shape_eq] at stepped
        rcases Call.map_eq_ok_iff.mp stepped with ⟨_, _, stepped_eq⟩
        cases stepped_eq
      · rw [step_visit_of_bind shape_eq] at stepped
        cases stepped
  | @await leaf pending leaf_awake waiting ih =>
      rcases value_eq : leaf.value? with _ | value
      · rw [step_await value_eq] at stepped
        rcases Stepped.suspended_of_map stepped with ⟨rest, leaf_stepped, rfl⟩
        rcases ih leaf_stepped with ⟨wake_eq, now_eq, rest_awake⟩
        exact ⟨wake_eq, now_eq, .await rest_awake waiting⟩
      · obtain rfl := eq_ready_of_value? value_eq
        rw [step_await_ready] at stepped
        rcases Call.map_eq_ok_iff.mp stepped with ⟨_, _, stepped_eq⟩
        cases stepped_eq

variable [VirtualClock σ]

/-- A step that an asleep future goes on with is the end of its wait, so its moment has come. -/
theorem Asleep.woke (asleep : future.Asleep paced deadline)
    (stepped : future.step before = some (.ok (.went next), after)) :
    deadline ≤ Host.now before ∧ Host.now after = Host.now before ∧ next.Awake paced := by
  induction asleep generalizing next with
  | sleep value =>
      rw [step_sleep] at stepped
      split at stepped
      · rename_i granted
        cases stepped
        exact ⟨VirtualClock.due_of_endWait deadline before granted,
          VirtualClock.now_endWait deadline before, .ready value⟩
      · cases stepped
  | chain first_asleep takesNoTime returns ih =>
      rw [step_chain first_asleep.value?_eq_none] at stepped
      rcases Stepped.went_of_map stepped with ⟨rest, first_stepped, rfl⟩
      rcases ih first_stepped with ⟨due, now_eq, rest_awake⟩
      exact ⟨due, now_eq, .chain rest_awake takesNoTime returns⟩
  | await leaf_asleep waiting ih =>
      rw [step_await leaf_asleep.value?_eq_none] at stepped
      rcases Stepped.went_of_map stepped with ⟨rest, leaf_stepped, rfl⟩
      rcases ih leaf_stepped with ⟨due, now_eq, rest_awake⟩
      exact ⟨due, now_eq, .await rest_awake waiting⟩

/-- An asleep future is suspended until its moment. -/
theorem Asleep.suspended (asleep : future.Asleep paced deadline)
    (stepped : future.step before = some (.ok (.suspended wake rest), after)) :
    wake = .at deadline ∧ Host.now after = Host.now before ∧ rest.Asleep paced deadline := by
  induction asleep generalizing rest with
  | sleep value =>
      rw [step_sleep] at stepped
      split at stepped
      · cases stepped
      · cases stepped
        exact ⟨rfl, VirtualClock.now_endWait deadline before, .sleep value⟩
  | chain first_asleep takesNoTime returns ih =>
      rw [step_chain first_asleep.value?_eq_none] at stepped
      rcases Stepped.suspended_of_map stepped with ⟨rest, first_stepped, rfl⟩
      rcases ih first_stepped with ⟨wake_eq, now_eq, rest_asleep⟩
      exact ⟨wake_eq, now_eq, .chain rest_asleep takesNoTime returns⟩
  | await leaf_asleep waiting ih =>
      rw [step_await leaf_asleep.value?_eq_none] at stepped
      rcases Stepped.suspended_of_map stepped with ⟨rest, leaf_stepped, rfl⟩
      rcases ih leaf_stepped with ⟨wake_eq, now_eq, rest_asleep⟩
      exact ⟨wake_eq, now_eq, .await rest_asleep waiting⟩

variable [Unital V]

/-- A step of an awake future that is not suspended takes no time, and the future stays awake unless
it falls asleep. -/
theorem Awake.went (closed : ∀ graph, paced graph → PacedNode paced graph.shape)
    (awake : future.Awake paced) (wakeful : ∀ milliseconds, ¬ future.FallsAsleep milliseconds)
    (stepped : future.step before = some (.ok (.went next), after)) :
    Host.now after = Host.now before ∧ next.Awake paced := by
  -- A step inside a leaf or a first future is one of theirs, and the rest that waits stays paced.
  induction awake generalizing before after next with
  | ready value =>
      cases stepped
      exact ⟨rfl, .ready value⟩
  | pause times next_awake =>
      cases times with
      | zero =>
          cases stepped
          exact ⟨rfl, next_awake⟩
      | succ times => cases stepped
  | begin takesNoTime returns =>
      rcases Call.bind_eq_ok_iff.mp stepped with ⟨found, between, called, stepped⟩
      cases stepped
      exact ⟨takesNoTime called, returns _ (Call.canReturn_of called)⟩
  | @chain first following first_awake takesNoTime returns ih =>
      rcases value_eq : first.value? with _ | value
      · rw [step_chain value_eq] at stepped
        rcases Stepped.went_of_map stepped with ⟨rest, first_stepped, rfl⟩
        have wakeful_first : ∀ milliseconds, ¬ first.FallsAsleep milliseconds := by
          rintro milliseconds ⟨node, visits, shape_eq⟩
          exact wakeful milliseconds ⟨node, visits.chain following, shape_eq⟩
        rcases ih wakeful_first first_stepped with ⟨now_eq, rest_awake⟩
        exact ⟨now_eq, .chain rest_awake takesNoTime returns⟩
      · obtain rfl := eq_ready_of_value? value_eq
        rw [step_chain_ready] at stepped
        rcases Call.map_eq_ok_iff.mp stepped with ⟨found, called, stepped_eq⟩
        cases stepped_eq
        exact ⟨takesNoTime value called, returns value _ (Call.canReturn_of called)⟩
  | @visit node pending node_paced waiting =>
      have node_closed := closed node node_paced
      generalize shape_eq : node.shape = shape at node_closed
      cases node_closed with
      | work takesNoTime returns =>
          rw [step_visit_of_leaf shape_eq] at stepped
          rcases Call.map_eq_ok_iff.mp stepped with ⟨leaf, produced, stepped_eq⟩
          cases stepped_eq
          exact ⟨takesNoTime produced, .await (returns leaf (Call.canReturn_of produced)) waiting⟩
      | sleep milliseconds =>
          exact absurd ⟨node, .visit node pending, shape_eq⟩ (wakeful milliseconds)
      | bind predecessor_paced continuation =>
          rw [step_visit_of_bind shape_eq] at stepped
          cases stepped
          exact ⟨rfl, .visit predecessor_paced (List.forall_mem_cons.mpr ⟨continuation, waiting⟩)⟩
  | @await leaf pending leaf_awake waiting ih =>
      rcases value_eq : leaf.value? with _ | value
      · rw [step_await value_eq] at stepped
        rcases Stepped.went_of_map stepped with ⟨rest, leaf_stepped, rfl⟩
        have wakeful_leaf : ∀ milliseconds, ¬ leaf.FallsAsleep milliseconds := by
          rintro milliseconds ⟨node, visits, shape_eq⟩
          exact wakeful milliseconds ⟨node, visits.await pending, shape_eq⟩
        rcases ih wakeful_leaf leaf_stepped with ⟨now_eq, rest_awake⟩
        exact ⟨now_eq, .await rest_awake waiting⟩
      · obtain rfl := eq_ready_of_value? value_eq
        rw [step_await_ready] at stepped
        rcases Call.map_eq_ok_iff.mp stepped with ⟨found, delivered, stepped_eq⟩
        cases stepped_eq
        exact ⟨deliver_takesNoTime waiting value delivered,
          awake_of_deliver waiting (Call.canReturn_of delivered)⟩

/-- An awake future that visits a leaf that sleeps is asleep after that. The moment at which it will
wake is fixed by the visit. -/
theorem Awake.fellAsleep {milliseconds : Nat} (awake : future.Awake paced)
    (falls : future.FallsAsleep milliseconds)
    (stepped : future.step before = some (.ok (.went next), after)) :
    Host.now after = Host.now before ∧
      next.Asleep paced (Host.now before + VirtualClock.span σ milliseconds) := by
  rcases falls with ⟨node, visits, shape_eq⟩
  induction visits generalizing before after next with
  | visit node pending =>
      rcases awake with _ | _ | _ | _ | ⟨_, waiting⟩
      rw [step_visit_of_leaf shape_eq] at stepped
      rw [Call.map_of_ok _ (AsyncGraph.fallAsleep_apply milliseconds before)] at stepped
      cases stepped
      exact ⟨VirtualClock.now_emit _ _, .await (.sleep _) waiting⟩
  | chain visits following ih =>
      rcases awake with _ | _ | _ | ⟨first_awake, takesNoTime, returns⟩
      rw [step_chain (value?_of_visits visits)] at stepped
      rcases Stepped.went_of_map stepped with ⟨rest, first_stepped, rfl⟩
      rcases ih first_awake first_stepped shape_eq with ⟨now_eq, rest_asleep⟩
      exact ⟨now_eq, .chain rest_asleep takesNoTime returns⟩
  | await visits pending ih =>
      rcases awake with _ | _ | _ | _ | _ | ⟨leaf_awake, waiting⟩
      rw [step_await (value?_of_visits visits)] at stepped
      rcases Stepped.went_of_map stepped with ⟨rest, leaf_stepped, rfl⟩
      rcases ih leaf_awake leaf_stepped shape_eq with ⟨now_eq, rest_asleep⟩
      exact ⟨now_eq, .await rest_asleep waiting⟩

end Future

end Deferral

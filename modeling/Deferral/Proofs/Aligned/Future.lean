import Deferral.Future.Complete
import Deferral.Proofs.Aligned.Stack
import Deferral.Proofs.Future.Spans

/-!
# Futures whose stacks stay aligned

The runs of asynchronous graphs are futures, and so are their leaves, which may run further graphs.
A future is aligned if every run in it has a stack that fits what it visits or awaits. A step keeps
this, and so does a break: whatever the world has become when the next poll begins, a future that
was suspended is in the middle of a leaf and not about to take a value that was left in the world.
-/

namespace Deferral

variable {ι σ ρ : Type} {Base : ι → Type} [Host σ (Tagged Base)]

namespace Future

/-- What a future has to do in the given world fits together and ends with a value of the type. -/
inductive Aligned (typing : Typing Base σ (Future σ (Tagged Base) ρ) ρ) :
    Ty ι → Future σ (Tagged Base) ρ → σ → Prop
  | ready {t : Ty ι} (value : t.Value Base) (world : σ) : Aligned typing t (.ready ⟨t, value⟩) world
  | pause {t : Ty ι} {next : Future σ (Tagged Base) ρ} (times : Nat)
      (later_aligned : ∀ later, Aligned typing t next later) (world : σ) :
      Aligned typing t (.pause times next) world
  | sleep {t : Ty ι} (deadline : Nat) (value : t.Value Base) (world : σ) :
      Aligned typing t (.sleep deadline ⟨t, value⟩) world
  | begin {t : Ty ι} {call : Call σ (Future σ (Tagged Base) ρ)}
      (panics : call.PanicsOnly typing.raised)
      (returns : ∀ ⦃before next after⦄, call before = some (.ok next, after) →
        Aligned typing t next after) (world : σ) :
      Aligned typing t (.begin call) world
  | chain {s t : Ty ι} {first : Future σ (Tagged Base) ρ}
      {next : Tagged Base → Call σ (Future σ (Tagged Base) ρ)} {world : σ}
      (first_aligned : Aligned typing s first world)
      (panics : ∀ item : s.Value Base, (next ⟨s, item⟩).PanicsOnly typing.raised)
      (returns : ∀ (item : s.Value Base) ⦃before rest after⦄,
        next ⟨s, item⟩ before = some (.ok rest, after) → Aligned typing t rest after) :
      Aligned typing t (.chain first next) world
  | visit {s t : Ty ι} {node : AsyncGraph σ (Tagged Base) ρ}
      {pending : Pending (Graph.Continuation σ (Future σ (Tagged Base) ρ) (Tagged Base) ρ)}
      {world : σ} (yields : typing.Yields s node world) (stack : typing.Stack s pending.waiting t) :
      Aligned typing t (.visit node pending) world
  | await {s t : Ty ι} {leaf : Future σ (Tagged Base) ρ}
      {pending : Pending (Graph.Continuation σ (Future σ (Tagged Base) ρ) (Tagged Base) ρ)}
      {world : σ}
      (leaf_aligned : Aligned typing s leaf world) (stack : typing.Stack s pending.waiting t) :
      Aligned typing t (.await leaf pending) world

/-- What a step leads to is aligned: now if it goes on, and in any later world if it is suspended.
-/
inductive StepAligned (typing : Typing Base σ (Future σ (Tagged Base) ρ) ρ) (t : Ty ι) :
    Except Panic (Stepped σ (Tagged Base) ρ) → σ → Prop
  | went {next : Future σ (Tagged Base) ρ} {after : σ} (aligned : next.Aligned typing t after) :
      StepAligned typing t (.ok (.went next)) after
  | suspended {rest : Future σ (Tagged Base) ρ} (wake : Wake)
      (aligned : ∀ later, rest.Aligned typing t later) (left : σ) :
      StepAligned typing t (.ok (.suspended wake rest)) left
  | panicked {reason : Panic} (reason_raised : typing.raised reason) (left : σ) :
      StepAligned typing t (.error reason) left

variable {typing : Typing Base σ (Future σ (Tagged Base) ρ) ρ} {s t : Ty ι}
  {first last : Future σ (Tagged Base) ρ} {before after : σ}
  {ending : Except Panic (Stepped σ (Tagged Base) ρ)}

namespace StepAligned

/-- A call is the whole step. -/
theorem of_call {call : Call σ (Future σ (Tagged Base) ρ)}
    (panics : ∀ reason after, call before = some (.error reason, after) → typing.raised reason)
    (returns : ∀ next after, call before = some (.ok next, after) → next.Aligned typing t after)
    (stepped : (Stepped.went <$> call) before = some (ending, after)) :
    StepAligned typing t ending after := by
  rcases ending with reason | stepped_to
  · exact .panicked (panics reason after (Call.map_eq_error_iff.mp stepped)) after
  · rcases Call.map_eq_ok_iff.mp stepped with ⟨next, called, rfl⟩
    exact .went (returns next after called)

/-- The step is one of a future inside. -/
theorem of_inner {function : Future σ (Tagged Base) ρ → Future σ (Tagged Base) ρ}
    (keeps : ∀ next world, next.Aligned typing s world → (function next).Aligned typing t world)
    {step : Call σ (Stepped σ (Tagged Base) ρ)}
    (inner : ∀ ending after, step before = some (ending, after) →
      StepAligned typing s ending after)
    (stepped : (Stepped.map function <$> step) before = some (ending, after)) :
    StepAligned typing t ending after := by
  rw [Call.map_apply] at stepped
  rcases Option.map_eq_some_iff.mp stepped with ⟨⟨found, left⟩, inner_stepped, same⟩
  cases same
  cases inner _ _ inner_stepped with
  | went aligned => exact .went (keeps _ _ aligned)
  | suspended wake aligned => exact .suspended wake (fun later => keeps _ later (aligned later)) _
  | panicked reason_raised => exact .panicked reason_raised _

end StepAligned

theorem aligned_ofGraph {graph : AsyncGraph σ (Tagged Base) ρ} (known : typing.known t graph)
    (world : σ) : (ofGraph graph).Aligned typing t world :=
  .visit (.known known world) (.nil t)

namespace Aligned

theorem type_eq {value : Tagged Base} (aligned : (Future.ready value).Aligned typing t before) :
    value.type = t := by
  cases aligned
  rfl

/-- What is awaited has the type that the stack takes as soon as it is there. -/
theorem produced {value : Tagged Base}
    {pending : Pending (Graph.Continuation σ (Future σ (Tagged Base) ρ) (Tagged Base) ρ)}
    (aligned : (Future.await (.ready value) pending).Aligned typing t before) :
    typing.Stack value.type pending.waiting t := by
  rcases aligned with _ | _ | _ | _ | _ | _ | ⟨leaf_aligned, stack⟩
  rw [leaf_aligned.type_eq]
  exact stack

section Deliver

variable {pending : Pending (Graph.Continuation σ (Future σ (Tagged Base) ρ) (Tagged Base) ρ)}
  (stack : typing.Stack s pending.waiting t) (item : s.Value Base)

include stack

theorem of_deliver {next : Future σ (Tagged Base) ρ}
    (delivered : deliver ⟨s, item⟩ pending before = some (.ok next, after)) :
    next.Aligned typing t after := by
  simp only [deliver] at delivered
  rcases popped : pending.pop? with _ | ⟨resume, below⟩
  · simp only [popped] at delivered
    cases delivered
    rw [(Pending.pop?_eq_none_iff pending).mp popped] at stack
    obtain rfl := stack.type_eq
    exact .ready item _
  · simp only [popped] at delivered
    rcases Call.bind_eq_ok_iff.mp delivered with ⟨node, between, resumed, delivered⟩
    cases delivered
    rcases stack.of_pop popped with ⟨between, takes, below⟩
    exact .visit (takes.answers item resumed) below

theorem deliver_panicsOnly : (deliver ⟨s, item⟩ pending).PanicsOnly typing.raised := by
  simp only [deliver]
  rcases popped : pending.pop? with _ | ⟨resume, below⟩
  · exact .bind (.change _) fun _ => .pure _
  · rcases stack.of_pop popped with ⟨between, takes, below⟩
    exact (takes.panics item).bind fun _ => .pure _

end Deliver

variable [Equations ρ σ (Future σ (Tagged Base) ρ) (Tagged Base)]
  (closed : typing.Closed (Aligned typing))

include closed

/-- Whatever a future does next keeps it aligned. -/
theorem step {future : Future σ (Tagged Base) ρ} (aligned : future.Aligned typing t before)
    (stepped : future.step before = some (ending, after)) : StepAligned typing t ending after := by
  -- The induction goes into leaves and first futures, whose steps are steps of the whole.
  induction aligned generalizing ending after with
  | ready value world =>
      cases stepped
      exact .went (.ready value _)
  | pause times next_aligned world =>
      cases times with
      | zero =>
          cases stepped
          exact .went (next_aligned _)
      | succ times =>
          cases stepped
          exact .suspended .soon (.pause times next_aligned) _
  | sleep deadline value world =>
      rw [step_sleep] at stepped
      split at stepped
      · cases stepped
        exact .went (.ready value _)
      · cases stepped
        exact .suspended (.at deadline) (.sleep deadline value) _
  | begin panics returns world =>
      rw [Future.step, bind_pure_comp] at stepped
      exact .of_call (fun _ _ called => panics called) (fun _ _ called => returns called) stepped
  | @chain _ _ first following world first_aligned panics returns ih =>
      rcases value_eq : first.value? with _ | value
      · rw [step_chain value_eq] at stepped
        exact .of_inner (fun _ _ aligned => .chain aligned panics returns) (fun _ _ => ih) stepped
      · obtain rfl := eq_ready_of_value? value_eq
        rw [step_chain_ready] at stepped
        cases first_aligned with
        | ready item =>
            exact .of_call (fun _ _ called => panics item called)
              (fun _ _ called => returns item called) stepped
  | @visit _ _ node pending world yields stack =>
      have node_closed := closed yields
      generalize shape_eq : node.shape = shape at node_closed
      cases node_closed with
      | leaf panics produces =>
          rw [step_visit_of_leaf shape_eq, ← Functor.map_map] at stepped
          refine .of_call (fun reason left called => ?_) (fun next left called => ?_) stepped
          · exact panics reason left (Call.map_eq_error_iff.mp called)
          · rcases Call.map_eq_ok_iff.mp called with ⟨leaf, produced, rfl⟩
            exact .await (produces leaf left produced) stack
      | bind first_yields takes =>
          rw [step_visit_of_bind shape_eq] at stepped
          cases stepped
          exact .went (.visit first_yields (.cons takes stack))
  | @await _ _ leaf pending world leaf_aligned stack ih =>
      rcases value_eq : leaf.value? with _ | value
      · rw [step_await value_eq] at stepped
        exact .of_inner (fun _ _ aligned => .await aligned stack) (fun _ _ => ih) stepped
      · obtain rfl := eq_ready_of_value? value_eq
        rw [step_await_ready] at stepped
        cases leaf_aligned with
        | ready item =>
            exact .of_call (fun _ _ called => deliver_panicsOnly stack item called)
              (fun _ _ called => of_deliver stack item called) stepped

theorem spans {breaks : List (σ × σ)} (aligned : first.Aligned typing t before)
    (spans : Spans breaks first before last after) : last.Aligned typing t after := by
  induction spans with
  | start => exact aligned
  | went _ _ stepped ih =>
      cases (ih aligned).step closed stepped with
      | went next_aligned => exact next_aligned
  | resumed _ stepped resumed ih =>
      cases (ih aligned).step closed stepped with
      | suspended _ rest_aligned => exact rest_aligned resumed

section Polls

variable {breaks : List (σ × σ)} (aligned : first.Aligned typing t before)

include aligned

theorem type_of_polls {value : Tagged Base}
    (polls : PollsTo breaks first before (some (.ok (.ready value), after))) : value.type = t :=
  (aligned.spans closed (pollsTo_ready_iff.mp polls)).type_eq

theorem raised_of_polls {reason : Panic}
    (polls : PollsTo breaks first before (some (.error reason, after))) : typing.raised reason := by
  rcases pollsTo_error_iff.mp polls with ⟨last, between, spans, stepped⟩
  cases (aligned.spans closed spans).step closed stepped with
  | panicked reason_raised => exact reason_raised

theorem rest_of_polls {wake : Wake} {rest : Future σ (Tagged Base) ρ}
    (polls : PollsTo breaks first before (some (.ok (.pending wake rest), after))) (later : σ) :
    rest.Aligned typing t later := by
  rcases pollsTo_pending_iff.mp polls with ⟨last, between, spans, stepped⟩
  cases (aligned.spans closed spans).step closed stepped with
  | suspended _ rest_aligned => exact rest_aligned later

end Polls

/-- Whoever completes a future gets a value of its type, or a panic that was raised. -/
theorem complete (aligned : ∀ world, first.Aligned typing t world)
    {answer : Except Panic (Tagged Base)}
    (completed : first.complete before = some (answer, after)) :
    (∀ reason, answer = .error reason → typing.raised reason) ∧
      ∀ value, answer = .ok value → value.type = t := by
  refine complete.fixpoint_induct
    (fun complete => ∀ (future : Future σ (Tagged Base) ρ) before answer,
      complete future before = some answer → (∀ world, future.Aligned typing t world) →
        (∀ reason, answer.1 = .error reason → typing.raised reason) ∧
          ∀ value, answer.1 = .ok value → value.type = t)
    ?_ ?_ first before _ completed aligned
  · exact fun _ _ => Call.answers_of_chain
      fun _ _ => ⟨fun order => by cases order <;> simp, by rintro (rfl | rfl) <;> constructor⟩
  · rintro complete ih future before ⟨answer, after⟩ completed aligned
    rcases Call.bind_eq_some_iff.mp completed with
      ⟨_, turned, _⟩ | ⟨_, turned, turn, completed⟩
    · cases turned
    rcases Call.bind_eq_some_iff.mp completed with
      ⟨_, panicked, rfl⟩ | ⟨value | ⟨wake, rest⟩, left, polled, completed⟩
    · refine ⟨?_, nofun⟩
      rintro reason ⟨⟩
      exact (aligned turned).raised_of_polls closed (pollsTo_nil_iff.mpr panicked)
    · cases completed
      refine ⟨nofun, ?_⟩
      rintro value ⟨⟩
      exact (aligned turned).type_of_polls closed (pollsTo_nil_iff.mpr polled)
    · rcases Call.bind_eq_some_iff.mp completed with
        ⟨_, slept, _⟩ | ⟨_, passed, slept, completed⟩
      · cases wake <;> cases slept
      · exact ih rest passed _ completed fun later =>
          (aligned turned).rest_of_polls closed (pollsTo_nil_iff.mpr polled) later

end Aligned

end Future

end Deferral

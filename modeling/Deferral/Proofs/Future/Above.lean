import Deferral.Proofs.Future.Spans
import Deferral.Proofs.Run.Above

/-!
# Asynchronous runs above a stack

The run of an asynchronous graph does not look at what waited before it began either. Put above a
stack, it takes the same steps in the same worlds, until the value of its last leaf is there and
nothing of its own waits for it. On its own the run is over then; above a stack it hands the value
to what waits below.
-/

namespace Deferral

variable {σ V ρ : Type}

/-- The future that a step leaves. -/
def Stepped.rest : Stepped σ V ρ → Future σ V ρ
  | .went next => next
  | .suspended _ rest => rest

namespace Future

/-- A run that is not over. -/
inductive IsRun : Future σ V ρ → Prop
  | visit (node : AsyncGraph σ V ρ)
      {pending : Pending (Graph.Continuation σ (Future σ V ρ) V ρ)} (counted : pending.Counted) :
      IsRun (.visit node pending)
  | await (leaf : Future σ V ρ)
      {pending : Pending (Graph.Continuation σ (Future σ V ρ) V ρ)} (counted : pending.Counted) :
      IsRun (.await leaf pending)

/-- The value of the last leaf is there and nothing waits for it, so the run is about to be over. -/
inductive Concludes : Future σ V ρ → V → Nat → Prop
  | last (value : V) {pending : Pending (Graph.Continuation σ (Future σ V ρ) V ρ)}
      (popped : pending.pop? = none) : Concludes (.await (.ready value) pending) value pending.peak

/-- What waits in a run. -/
def stack : Future σ V ρ → Pending (Graph.Continuation σ (Future σ V ρ) V ρ)
  | .visit _ pending => pending
  | .await _ pending => pending
  | _ => .empty

/-- A run above a stack. -/
def above (base : Pending (Graph.Continuation σ (Future σ V ρ) V ρ)) :
    Future σ V ρ → Future σ V ρ
  | .visit node pending => .visit node (pending.above base)
  | .await leaf pending => .await leaf (pending.above base)
  | future => future

variable {future last : Future σ V ρ} {value : V} {peak : Nat} {before between after : σ}
  {base : Pending (Graph.Continuation σ (Future σ V ρ) V ρ)}

theorem isRun_ofGraph (graph : AsyncGraph σ V ρ) : (ofGraph graph).IsRun :=
  .visit graph Pending.counted_empty

theorem IsRun.value?_eq_none (running : future.IsRun) : future.value? = none := by
  cases running <;> rfl

theorem Concludes.value?_eq_none (concludes : future.Concludes value peak) :
    future.value? = none := by
  cases concludes
  rfl

theorem IsRun.stack_above (running : future.IsRun)
    (base : Pending (Graph.Continuation σ (Future σ V ρ) V ρ)) :
    (future.above base).stack = future.stack.above base := by
  cases running <;> rfl

theorem IsRun.value?_above (running : future.IsRun)
    (base : Pending (Graph.Continuation σ (Future σ V ρ) V ρ)) :
    (future.above base).value? = none := by
  cases running <;> rfl

theorem concludes_or_not (future : Future σ V ρ) :
    (∃ value peak, future.Concludes value peak) ∨ ∀ value peak, ¬ future.Concludes value peak := by
  by_cases concludes : ∃ value peak, future.Concludes value peak
  · exact .inl concludes
  · simp only [not_exists] at concludes
    exact .inr concludes

theorem ofGraph_above (graph : AsyncGraph σ V ρ) (le : base.depth ≤ base.peak) :
    (ofGraph graph).above base = .visit graph base := by
  rcases base with ⟨waiting, depth, peak⟩
  simpa [ofGraph, above, Pending.above] using le

section Step

variable [Host σ V] [Equations ρ σ (Future σ V ρ) V]

theorem Concludes.step (concludes : future.Concludes value peak) (before : σ) :
    future.step before =
      some (.ok (.went (.ready value)), Host.emit (.asyncFinished peak) before) := by
  cases concludes with
  | last value popped =>
      simp only [step_await_ready, deliver, popped]
      rfl

theorem Concludes.poll (concludes : future.Concludes value peak) (before : σ) :
    future.poll before = some (.ok (.ready value), Host.emit (.asyncFinished peak) before) := by
  rw [poll_eq_step, Call.bind_of_ok (concludes.step before), afterStep, poll_ready]
  rfl

/-- The step that ends a run on its own hands the value to what waits below it. -/
theorem Concludes.step_above (concludes : future.Concludes value peak) (running : future.IsRun)
    (base : Pending (Graph.Continuation σ (Future σ V ρ) V ρ)) :
    (future.above base).step = Stepped.went <$> deliver value (base.raise peak) := by
  cases concludes with
  | last value popped =>
      cases running with
      | await _ counted =>
          simp only [above, Pending.above_of_pop?_eq_none base counted popped]
          exact step_await_ready value _

variable (running : future.IsRun) (unconcluded : ∀ value peak, ¬ future.Concludes value peak)

include running unconcluded

/-- Every other step is the same above a stack. -/
theorem IsRun.step_above (base : Pending (Graph.Continuation σ (Future σ V ρ) V ρ)) :
    (future.above base).step = Stepped.map (above base) <$> future.step := by
  cases running with
  | visit node counted =>
      rcases shape_eq : node.shape with produce | ⟨predecessor, resume⟩
      · simp only [above, step_visit_of_leaf shape_eq, Functor.map_map]
        rfl
      · simp only [above, step_visit_of_bind shape_eq, ← Pending.push_above]
        rfl
  | @await leaf pending counted =>
      rcases value_eq : leaf.value? with _ | value
      · simp only [above, step_await value_eq, Functor.map_map, Stepped.map_map]
      · obtain rfl := eq_ready_of_value? value_eq
        rcases popped : pending.pop? with _ | ⟨resume, rest⟩
        · exact absurd (.last value popped) (unconcluded value pending.peak)
        · have popped_above := Pending.pop?_above_of_some base counted popped
          simp only [above, step_await_ready, deliver, popped, popped_above, map_bind, map_pure]
          rfl

/-- A run that is not about to be over is not over after its next step. -/
theorem IsRun.step {stepped : Stepped σ V ρ}
    (stepped_eq : future.step before = some (.ok stepped, after)) : stepped.rest.IsRun := by
  cases running with
  | @visit node pending counted =>
      rcases shape_eq : node.shape with produce | ⟨predecessor, resume⟩
      · rw [step_visit_of_leaf shape_eq] at stepped_eq
        rcases Call.map_eq_ok_iff.mp stepped_eq with ⟨leaf, _, rfl⟩
        exact .await leaf counted
      · rw [step_visit_of_bind shape_eq] at stepped_eq
        cases stepped_eq
        exact .visit predecessor (counted.push resume)
  | @await leaf pending counted =>
      rcases value_eq : leaf.value? with _ | value
      · rw [step_await value_eq] at stepped_eq
        rcases Call.map_eq_ok_iff.mp stepped_eq with ⟨inner, _, rfl⟩
        cases inner <;> exact .await _ counted
      · obtain rfl := eq_ready_of_value? value_eq
        rcases popped : pending.pop? with _ | ⟨resume, rest⟩
        · exact absurd (.last value popped) (unconcluded value pending.peak)
        · simp only [step_await_ready, deliver, popped] at stepped_eq
          rcases Call.map_eq_ok_iff.mp stepped_eq with ⟨next, delivered, rfl⟩
          rcases Call.bind_eq_ok_iff.mp delivered with ⟨node, between, _, returned⟩
          cases returned
          exact .visit node (counted.pop? popped)

end Step

section Steps

variable [Host σ V] [Equations ρ σ (Future σ V ρ) V] {breaks : List (σ × σ)}

theorem IsRun.suspended (running : future.IsRun) {wake : Wake} {rest : Future σ V ρ}
    (stepped : future.step before = some (.ok (.suspended wake rest), after)) : rest.IsRun := by
  rcases future.concludes_or_not with ⟨value, peak, concludes⟩ | unconcluded
  · rw [concludes.step] at stepped
    cases stepped
  · exact running.step unconcluded stepped

theorem IsRun.spans (running : future.IsRun) (spans : Spans breaks future before last after)
    (unfinished : last.value? = none) : last.IsRun := by
  induction spans with
  | start => exact running
  | went _ earlier stepped ih =>
      rcases concludes_or_not _ with ⟨value, peak, concludes⟩ | unconcluded
      · rw [concludes.step] at stepped
        cases stepped
        cases unfinished
      · exact (ih running earlier).step unconcluded stepped
  | resumed _ stepped resumed ih =>
      exact (ih running (value?_of_suspended stepped)).suspended stepped

theorem IsRun.exists_concludes (running : future.IsRun)
    (spans : Spans breaks future before (.ready value) after) :
    ∃ last peak between, Spans breaks future before last between ∧ last.Concludes value peak ∧
      after = Host.emit (.asyncFinished peak) between := by
  cases spans with
  | start => cases running
  | went earlier unfinished stepped =>
      rcases concludes_or_not _ with ⟨found, peak, concludes⟩ | unconcluded
      · rw [concludes.step] at stepped
        cases stepped
        exact ⟨_, peak, _, earlier, concludes, rfl⟩
      · cases (running.spans earlier unfinished).step unconcluded stepped
  | resumed earlier stepped =>
      cases (running.spans earlier (value?_of_suspended stepped)).suspended stepped

section Suspended

variable {wake : Wake} {rest : Future σ V ρ} {reason : Panic}

theorem IsRun.step_above_of_suspended (running : future.IsRun)
    (stepped : future.step before = some (.ok (.suspended wake rest), after))
    (base : Pending (Graph.Continuation σ (Future σ V ρ) V ρ)) :
    (future.above base).step before = some (.ok (.suspended wake (rest.above base)), after) := by
  rcases future.concludes_or_not with ⟨value, peak, concludes⟩ | unconcluded
  · rw [concludes.step] at stepped
    cases stepped
  · rw [running.step_above unconcluded]
    exact Call.map_of_ok (Stepped.map (above base)) stepped

theorem IsRun.step_above_of_panicked (running : future.IsRun)
    (stepped : future.step before = some (.error reason, after))
    (base : Pending (Graph.Continuation σ (Future σ V ρ) V ρ)) :
    (future.above base).step before = some (.error reason, after) := by
  rcases future.concludes_or_not with ⟨value, peak, concludes⟩ | unconcluded
  · rw [concludes.step] at stepped
    cases stepped
  · rw [running.step_above unconcluded]
    exact Call.map_eq_error_iff.mpr stepped

end Suspended

/-- As long as a run is not over, it takes the same steps above a stack. -/
theorem Spans.above (spans : Spans breaks future before last after) (running : future.IsRun)
    (unfinished : last.value? = none)
    (base : Pending (Graph.Continuation σ (Future σ V ρ) V ρ)) :
    Spans breaks (future.above base) before (last.above base) after := by
  induction spans with
  | start => exact .start _ _
  | went earlier unfinished_before stepped ih =>
      have running_before := running.spans earlier unfinished_before
      refine (ih running unfinished_before).went (running_before.value?_above base) ?_
      rcases concludes_or_not _ with ⟨value, peak, concludes⟩ | unconcluded
      · rw [concludes.step] at stepped
        cases stepped
        cases unfinished
      · rw [running_before.step_above unconcluded]
        exact Call.map_of_ok _ stepped
  | resumed earlier stepped resumed ih =>
      have unfinished_before := value?_of_suspended stepped
      have running_before := running.spans earlier unfinished_before
      exact (ih running unfinished_before).resumed
        (running_before.step_above_of_suspended stepped base) resumed

end Steps

section Polls

variable [Host σ V] [Equations ρ σ (Future σ V ρ) V]

theorem IsRun.poll_above_of_pending (running : future.IsRun) {wake : Wake} {rest : Future σ V ρ}
    (polled : future.poll before = some (.ok (.pending wake rest), after))
    (base : Pending (Graph.Continuation σ (Future σ V ρ) V ρ)) :
    rest.IsRun ∧
      (future.above base).poll before = some (.ok (.pending wake (rest.above base)), after) := by
  rcases pollsTo_pending_iff.mp (pollsTo_nil_iff.mpr polled) with ⟨last, here, spans, stepped⟩
  have unfinished := value?_of_suspended stepped
  have running_last := running.spans spans unfinished
  constructor
  · exact running_last.suspended stepped
  · exact pollsTo_nil_iff.mp (pollsTo_pending_iff.mpr ⟨_, here,
      spans.above running unfinished base, running_last.step_above_of_suspended stepped base⟩)

theorem IsRun.poll_above_of_error (running : future.IsRun) {reason : Panic}
    (polled : future.poll before = some (.error reason, after))
    (base : Pending (Graph.Continuation σ (Future σ V ρ) V ρ)) :
    (future.above base).poll before = some (.error reason, after) := by
  rcases pollsTo_error_iff.mp (pollsTo_nil_iff.mpr polled) with ⟨last, here, spans, stepped⟩
  have unfinished := value?_of_panicked stepped
  have running_last := running.spans spans unfinished
  exact pollsTo_nil_iff.mp (pollsTo_error_iff.mpr ⟨_, here,
    spans.above running unfinished base, running_last.step_above_of_panicked stepped base⟩)

/-- The poll in which a run on its own is over goes on with what waits below. -/
theorem IsRun.poll_above_of_ready (running : future.IsRun)
    (polled : future.poll before = some (.ok (.ready value), after))
    (base : Pending (Graph.Continuation σ (Future σ V ρ) V ρ)) :
    ∃ peak between, after = Host.emit (.asyncFinished peak) between ∧
      (future.above base).poll before = (deliver value (base.raise peak) >>= poll) between := by
  have spans := pollsTo_ready_iff.mp (pollsTo_nil_iff.mpr polled)
  rcases running.exists_concludes spans with ⟨last, peak, between, spans, concludes, after_eq⟩
  have unfinished := concludes.value?_eq_none
  refine ⟨peak, between, after_eq, ?_⟩
  rw [pollsTo_nil_iff.mp (pollsTo_iff.mpr ⟨_, between, spans.above running unfinished base, rfl⟩),
    poll_eq_step, concludes.step_above (running.spans spans unfinished), bind_map_left]
  rfl

theorem IsRun.poll_ne_none_of_goes (running : future.IsRun) {outer : Future σ V ρ}
    (outer_eq : future.above base = outer) {ending : Except Panic (Poll V (Future σ V ρ))}
    (goes : Goes outer before last between) (stops : last.Stops between ending after) :
    future.poll before ≠ none := by
  induction goes generalizing future with
  | start =>
      rcases future.concludes_or_not with ⟨value, peak, concludes⟩ | unconcluded
      · rw [concludes.poll]
        exact Option.some_ne_none _
      · have step_eq := running.step_above unconcluded base
        rw [outer_eq] at step_eq
        cases stops with
        | ready => cases (outer_eq ▸ running.value?_above base)
        | suspended stepped =>
            rw [step_eq] at stepped
            rcases Stepped.suspended_of_map stepped with ⟨rest, inner_stepped, _⟩
            rw [(Stops.suspended inner_stepped).poll_eq]
            exact Option.some_ne_none _
        | panicked stepped =>
            rw [step_eq] at stepped
            rw [(Stops.panicked (Call.map_eq_error_iff.mp stepped)).poll_eq]
            exact Option.some_ne_none _
  | step unfinished stepped goes ih =>
      rcases future.concludes_or_not with ⟨value, peak, concludes⟩ | unconcluded
      · rw [concludes.poll]
        exact Option.some_ne_none _
      · rw [← outer_eq, running.step_above unconcluded base] at stepped
        rcases Stepped.went_of_map stepped with ⟨next, inner_stepped, rfl⟩
        rw [poll_eq_step, Call.bind_of_ok inner_stepped]
        exact ih (running.step unconcluded inner_stepped) rfl stops

theorem IsRun.poll_above_of_none (running : future.IsRun) (hangs : future.poll before = none)
    (base : Pending (Graph.Continuation σ (Future σ V ρ) V ρ)) :
    (future.above base).poll before = none := by
  rcases polled : (future.above base).poll before with _ | ⟨ending, after⟩
  · rfl
  · rcases poll_eq_some_iff.mp polled with ⟨last, between, goes, stops⟩
    exact absurd hangs (running.poll_ne_none_of_goes rfl goes stops)

end Polls

end Future

end Deferral

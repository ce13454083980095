import Deferral.Proofs.Endless.Iterations
import Deferral.Proofs.Run.Forever
import Deferral.Typed.AsyncDeferred

/-!
# Polls of an endless run

A poll of a cycle goes on from where the poll before it was suspended and ends where the body is
suspended next, or where it panics. It has no answer when some run of the body has none. There is
one more case, in which iteration after iteration is completed without a suspension; that such a
poll does not answer with a value either is what makes an endless run endless.
-/

namespace Deferral

namespace AsyncGraph

variable {σ V ρ : Type} [Host σ V] [Equations ρ σ (Future σ V ρ) V]
variable {body : AsyncGraph σ V ρ} {accept : V → Call σ Unit} {peaks : List Nat}
  {breaks : List (σ × σ)} {inner last : Future σ V ρ} {before between here after : σ}

theorem Iterating.value?_eq_none
    (iterating : Iterating body accept peaks breaks before last after) :
    last.value? = none := by
  cases iterating with
  | between => rfl
  | inside underway =>
      rcases underway with ⟨_, _, running⟩
      exact running.value?_above _

theorem Iterating.panicked {reason : Panic}
    (iterating : Iterating body accept peaks breaks before last between)
    (stepped : last.step between = some (.error reason, after)) :
    ∃ inner, Underway body accept peaks breaks before inner between ∧
      (inner.step between = some (.error reason, after) ∨
        ∃ value peak, inner.Concludes value peak ∧
          accept value between = some (.error reason, after)) := by
  cases iterating with
  | between completed =>
      rw [step_iterationHead] at stepped
      cases stepped
  | inside underway =>
      rcases underway with ⟨completed, ran, running⟩
      refine ⟨_, .ran completed ran running, ?_⟩
      rcases step_inIteration running body accept (iterationDepth peaks) with
        ⟨value, peak, concludes, step_eq⟩ | ⟨unconcluded, step_eq⟩
      · rw [step_eq] at stepped
        exact .inr ⟨value, peak, concludes, Call.map_eq_error_iff.mp stepped⟩
      · rw [step_eq] at stepped
        exact .inl (Call.map_eq_error_iff.mp stepped)

theorem Underway.refuses (underway : Underway body accept peaks breaks before inner between)
    {value : V} {peak : Nat} {reason : Panic} (concludes : inner.Concludes value peak)
    (refused : accept value between = some (.error reason, after)) (depth : Nat) :
    (inIteration body accept depth inner).step between = some (.error reason, after) := by
  rw [step_inIteration_of_concludes underway.isRun concludes]
  exact Call.map_eq_error_iff.mpr refused

theorem not_ready (body : AsyncGraph σ V ρ) (accept : V → Call σ Unit) (breaks : List (σ × σ))
    (before : σ) (value : V) (after : σ) :
    ¬ (Future.ofGraph (.cycle body accept)).PollsTo breaks before
      (some (.ok (.ready value), after)) := by
  intro polled
  rcases exists_iterating (Future.pollsTo_ready_iff.mp polled) with ⟨peaks, iterating⟩
  cases iterating.value?_eq_none

theorem cycle_pending_iff {wake : Wake} {rest : Future σ V ρ} :
    (Future.ofGraph (.cycle body accept)).PollsTo breaks before
        (some (.ok (.pending wake rest), after)) ↔
      ∃ peaks earlier more between left, breaks = earlier ++ more ∧
        Iterates body accept peaks earlier before between ∧
        (Future.ofGraph body).PollsTo more between (some (.ok (.pending wake left), after)) ∧
        rest = inIteration body accept (iterationDepth peaks) left := by
  rw [Future.pollsTo_pending_iff]
  constructor
  · rintro ⟨last, here, spans, stepped⟩
    rcases exists_iterating spans with ⟨peaks, iterating⟩
    rcases iterating.suspended stepped with ⟨inner, left, ⟨completed, ran, _⟩, stepped, _, rest_eq⟩
    have pending := Future.pollsTo_pending_iff.mpr ⟨inner, here, ran, stepped⟩
    exact ⟨peaks, _, _, _, left, rfl, completed, pending, rest_eq⟩
  · rintro ⟨peaks, earlier, more, between, left, rfl, completed, pending, rfl⟩
    rcases Future.pollsTo_pending_iff.mp pending with ⟨inner, here, ran, stepped⟩
    have running := (Future.isRun_ofGraph body).spans ran (Future.value?_of_suspended stepped)
    have underway := Underway.ran completed ran running
    exact ⟨_, here, (Iterating.inside underway).spans, running.step_above_of_suspended stepped _⟩

theorem cycle_panics_iff {reason : Panic} :
    (Future.ofGraph (.cycle body accept)).PollsTo breaks before (some (.error reason, after)) ↔
      ∃ peaks earlier more between, breaks = earlier ++ more ∧
        Iterates body accept peaks earlier before between ∧
        ((Future.ofGraph body).PollsTo more between (some (.error reason, after)) ∨
          ∃ value peak here, body.Completes more between value peak here ∧
            accept value here = some (.error reason, after)) := by
  rw [Future.pollsTo_error_iff]
  constructor
  · rintro ⟨last, here, spans, stepped⟩
    rcases exists_iterating spans with ⟨peaks, iterating⟩
    rcases iterating.panicked stepped with
      ⟨inner, ⟨completed, ran, _⟩, stepped | ⟨value, peak, concludes, refused⟩⟩
    · have panicked := Future.pollsTo_error_iff.mpr ⟨inner, here, ran, stepped⟩
      exact ⟨peaks, _, _, _, rfl, completed, .inl panicked⟩
    · exact ⟨peaks, _, _, _, rfl, completed,
        .inr ⟨value, peak, here, ⟨inner, ran, concludes⟩, refused⟩⟩
  · rintro ⟨peaks, earlier, more, between, rfl, completed,
      panicked | ⟨value, peak, here, ⟨inner, ran, concludes⟩, refused⟩⟩
    · rcases Future.pollsTo_error_iff.mp panicked with ⟨inner, here, ran, stepped⟩
      have running := (Future.isRun_ofGraph body).spans ran (Future.value?_of_panicked stepped)
      have underway := Underway.ran completed ran running
      exact ⟨_, here, (Iterating.inside underway).spans, running.step_above_of_panicked stepped _⟩
    · have running := (Future.isRun_ofGraph body).spans ran concludes.value?_eq_none
      have underway := Underway.ran completed ran running
      exact ⟨_, here, (Iterating.inside underway).spans, underway.refuses concludes refused _⟩

/-- Something in an iteration does not return. -/
def Hangs (body : AsyncGraph σ V ρ) (accept : V → Call σ Unit) (breaks : List (σ × σ))
    (before : σ) : Prop :=
  ∃ peaks earlier more between, breaks = earlier ++ more ∧
    Iterates body accept peaks earlier before between ∧
    ((Future.ofGraph body).PollsTo more between none ∨
      ∃ value peak here, body.Completes more between value peak here ∧ accept value here = none)

section Unanswered

variable (unanswered : (Future.ofGraph (.cycle body accept)).PollsTo breaks before none)
  (returns : ¬ Hangs body accept breaks before)

include unanswered returns

/-- In a poll without an answer each iteration is completed, unless something in it does not return.
-/
theorem exists_completed (iterating : Iterating body accept peaks breaks before last between) :
    ∃ peak after, Iterates body accept (peak :: peaks) breaks before after := by
  rcases iterating.underway with ⟨inner, completed, ran, _⟩
  rcases polled : inner.poll between with _ | ⟨ending, after⟩
  · have hangs := Future.pollsTo_iff.mpr ⟨inner, between, ran, polled⟩
    exact absurd ⟨peaks, _, _, _, rfl, completed, .inl hangs⟩ returns
  rcases Future.poll_eq_some_iff.mp polled with ⟨last, here, goes, stops⟩
  -- The poll of the cycle has no answer, so it is neither pending nor panics where the body's run
  -- is.
  cases stops with
  | ready value =>
      rcases (Future.isRun_ofGraph body).exists_concludes (ran.goes goes) with
        ⟨last, peak, here, ran, concludes, _⟩
      have completes : body.Completes _ _ value peak here := ⟨last, ran, concludes⟩
      rcases accepted : accept value here with _ | ⟨reason | ⟨⟩, resumed⟩
      · have hangs : ∃ value peak here, body.Completes _ _ value peak here ∧
          accept value here = none :=
          ⟨value, peak, here, completes, accepted⟩
        exact absurd ⟨peaks, _, _, _, rfl, completed, .inr hangs⟩ returns
      · have panics := cycle_panics_iff.mpr
          ⟨peaks, _, _, _, rfl, completed, .inr ⟨value, peak, here, completes, accepted⟩⟩
        cases unanswered.unique panics
      · exact ⟨peak, resumed, .iteration completed completes accepted⟩
  | suspended stepped =>
      have pending := Future.pollsTo_pending_iff.mpr ⟨last, here, ran.goes goes, stepped⟩
      have cycle_pending := cycle_pending_iff.mpr
        ⟨peaks, _, _, _, _, rfl, completed, pending, rfl⟩
      cases unanswered.unique cycle_pending
  | panicked stepped =>
      have panics := Future.pollsTo_error_iff.mpr ⟨last, here, ran.goes goes, stepped⟩
      have cycle_panics := cycle_panics_iff.mpr ⟨peaks, _, _, _, rfl, completed, .inl panics⟩
      cases unanswered.unique cycle_panics

/-- Without a suspension one iteration after another is completed. -/
theorem exists_iterates (number : Nat) :
    ∃ peaks after, number ≤ peaks.length ∧ Iterates body accept peaks breaks before after := by
  induction number with
  | zero =>
      have started := unanswered
      rcases started with ⟨future, between, resumes, _⟩
      rcases exists_iterating resumes.spans with ⟨peaks, iterating⟩
      rcases exists_completed unanswered returns iterating with ⟨peak, after, completed⟩
      exact ⟨peak :: peaks, after, Nat.zero_le _, completed⟩
  | succ number ih =>
      rcases ih with ⟨peaks, between, le, completed⟩
      rcases exists_completed unanswered returns (.between completed) with ⟨peak, after, completed⟩
      exact ⟨peak :: peaks, after, Nat.succ_le_succ le, completed⟩

end Unanswered

/-- A poll of a cycle has no answer only where something in an iteration does not return, or where
iterations are completed without end. -/
theorem hangs_or_endless
    (unanswered : (Future.ofGraph (.cycle body accept)).PollsTo breaks before none) :
    Hangs body accept breaks before ∨
      ∀ number, ∃ peaks after, number ≤ peaks.length ∧
        Iterates body accept peaks breaks before after := by
  by_cases hangs : Hangs body accept breaks before
  · exact .inl hangs
  · exact .inr (exists_iterates unanswered hangs)

end AsyncGraph

namespace AsyncDeferred

variable {ι σ ρ : Type} {Base : ι → Type} {t : Ty ι} [DecidableEq ι]

/-- An iteration of an endless computation takes a value of the right type and drops it. -/
def forget (t : Ty ι) (value : Tagged Base) : Call σ Unit := do
  let _ ← value.expect Promise.mismatch t

theorem forget_apply (t : Ty ι) (value : Tagged Base) (world : σ) :
    (forget t value : Call σ Unit) world =
      some (if value.type = t then .ok () else .error (.text Promise.mismatch), world) :=
  Tagged.expect_dropped Promise.mismatch t value world

theorem forget_ne_none (t : Ty ι) (value : Tagged Base) (world : σ) :
    (forget t value : Call σ Unit) world ≠ none := by
  rw [forget_apply]
  exact Option.some_ne_none _

theorem forget_eq_error_iff {value : Tagged Base} {reason : Panic} {before after : σ} :
    (forget t value : Call σ Unit) before = some (.error reason, after) ↔
      value.type ≠ t ∧ reason = .text Promise.mismatch ∧ after = before := by
  rw [forget_apply]
  by_cases same : value.type = t
  · simp [same]
  · simp [same, eq_comm]

variable [Host σ (Tagged Base)] [AsyncDefinitions Base ρ σ]

theorem forever_panics_iff {body : AsyncDeferred Base σ ρ t} {breaks : List (σ × σ)}
    {world after : σ} {reason : Panic} :
    body.forever.run.future.PollsTo breaks world (some (.error reason, after)) ↔
      ∃ peaks earlier more between, breaks = earlier ++ more ∧
        body.graph.Iterates (forget t) peaks earlier world between ∧
        (body.run.future.PollsTo more between (some (.error reason, after)) ∨
          ∃ value peak, body.graph.Completes more between value peak after ∧
            value.type ≠ t ∧ reason = .text Promise.mismatch) := by
  have refused_iff : ∀ more between,
      (∃ value peak here, body.graph.Completes more between value peak here ∧
        (forget t value : Call σ Unit) here = some (.error reason, after)) ↔
      ∃ value peak, body.graph.Completes more between value peak after ∧
        value.type ≠ t ∧ reason = .text Promise.mismatch := by
    intro more between
    simp only [forget_eq_error_iff]
    constructor
    · rintro ⟨value, peak, here, completes, other, reason_eq, rfl⟩
      exact ⟨value, peak, completes, other, reason_eq⟩
    · rintro ⟨value, peak, completes, other, reason_eq⟩
      exact ⟨value, peak, after, completes, other, reason_eq, rfl⟩
  simp only [← refused_iff]
  exact AsyncGraph.cycle_panics_iff

theorem forever_hangs_or_endless {body : AsyncDeferred Base σ ρ t} {breaks : List (σ × σ)}
    {world : σ} (unanswered : body.forever.run.future.PollsTo breaks world none) :
    (∃ peaks earlier more between, breaks = earlier ++ more ∧
      body.graph.Iterates (forget t) peaks earlier world between ∧
      body.run.future.PollsTo more between none) ∨
      ∀ number, ∃ peaks after, number ≤ peaks.length ∧
        body.graph.Iterates (forget t) peaks breaks world after := by
  rcases AsyncGraph.hangs_or_endless unanswered with hangs | endless
  · rcases hangs with ⟨peaks, earlier, more, between, breaks_eq, completed, hangs⟩
    rcases hangs with hangs | ⟨value, _, here, _, hangs⟩
    · exact .inl ⟨peaks, earlier, more, between, breaks_eq, completed, hangs⟩
    · exact absurd hangs (forget_ne_none t value here)
  · exact .inr endless

/-- A run of an endless computation is never ready, however often it is polled and whatever the
worlds are like then. After any number of completed iterations, a poll is pending or panics as the
body's own run does there. Only if that run does not return, or iterations are completed without
end, the poll does not return. Every iteration begins with nothing waiting. -/
theorem forever_polls (body : AsyncDeferred Base σ ρ t) (world : σ) :
    let run : Future σ (Tagged Base) ρ := body.forever.run.future
    let completed := body.graph.Iterates (forget t)
    let head := body.graph.iterationHead (forget t)
    let within := body.graph.inIteration (forget t)
    (∀ breaks value after, ¬ run.PollsTo breaks world (some (.ok (.ready value), after))) ∧
    (∀ breaks wake rest after,
      run.PollsTo breaks world (some (.ok (.pending wake rest), after)) ↔
        ∃ peaks earlier more between left, breaks = earlier ++ more ∧
          completed peaks earlier world between ∧
          body.run.future.PollsTo more between (some (.ok (.pending wake left), after)) ∧
          rest = within (AsyncGraph.iterationDepth peaks) left) ∧
    (∀ breaks reason after, run.PollsTo breaks world (some (.error reason, after)) ↔
      ∃ peaks earlier more between, breaks = earlier ++ more ∧
        completed peaks earlier world between ∧
        (body.run.future.PollsTo more between (some (.error reason, after)) ∨
          ∃ value peak, body.graph.Completes more between value peak after ∧
            value.type ≠ t ∧ reason = .text Promise.mismatch)) ∧
    (∀ breaks, run.PollsTo breaks world none →
      (∃ peaks earlier more between, breaks = earlier ++ more ∧
        completed peaks earlier world between ∧ body.run.future.PollsTo more between none) ∨
        ∀ number, ∃ peaks after, number ≤ peaks.length ∧ completed peaks breaks world after) ∧
    (∀ breaks last after, run.Spans breaks world last after ↔
      ∃ peaks,
        completed peaks breaks world after ∧ last = head (AsyncGraph.iterationDepth peaks) ∨
        ∃ inner, body.graph.Underway (forget t) peaks breaks world inner after ∧
          last = within (AsyncGraph.iterationDepth peaks) inner) ∧
    (∀ depth, (head depth).stack.waiting = [] ∧ (head depth).stack.peak = depth) ∧
    (∀ depth inner, inner.IsRun →
      (within depth inner).stack.waiting.length = 1 + inner.stack.waiting.length ∧
        (within depth inner).stack.peak = max depth (1 + inner.stack.peak)) ∧
    ∀ deepest,
      (∀ peaks breaks inner after, body.graph.Underway (forget t) peaks breaks world inner after →
        inner.stack.waiting.length ≤ deepest) →
      ∀ breaks last after, run.Spans breaks world last after →
        last.stack.waiting.length ≤ 1 + deepest := by
  intro run completed head within
  have reached : ∀ breaks last after, run.Spans breaks world last after ↔
      ∃ peaks,
        completed peaks breaks world after ∧ last = head (AsyncGraph.iterationDepth peaks) ∨
        ∃ inner, body.graph.Underway (forget t) peaks breaks world inner after ∧
          last = within (AsyncGraph.iterationDepth peaks) inner := by
    intro breaks last after
    exact AsyncGraph.spans_cycle_iff.trans (exists_congr fun _ => AsyncGraph.iterating_iff)
  refine ⟨?_, ?_, ?_, ?_, reached, ?_, ?_, ?_⟩
  · intro breaks value after
    exact AsyncGraph.not_ready body.graph (forget t) breaks world value after
  · intro breaks wake rest after
    exact AsyncGraph.cycle_pending_iff
  · intro breaks reason after
    exact forever_panics_iff
  · intro breaks unanswered
    exact forever_hangs_or_endless unanswered
  · exact AsyncGraph.stack_iterationHead body.graph (forget t)
  · intro depth inner running
    exact AsyncGraph.stack_inIteration running body.graph (forget t) depth
  · intro deepest bounded breaks last after spans
    rcases (reached breaks last after).mp spans with
      ⟨peaks, ⟨_, rfl⟩ | ⟨inner, underway, rfl⟩⟩
    · rw [(AsyncGraph.stack_iterationHead body.graph (forget t) _).1]
      exact Nat.zero_le _
    · rw [(AsyncGraph.stack_inIteration underway.isRun body.graph (forget t) _).1]
      exact Nat.add_le_add_left (bounded peaks breaks inner after underway) 1

end AsyncDeferred

end Deferral

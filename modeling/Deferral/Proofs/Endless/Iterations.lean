import Deferral.Proofs.Future.Above

/-!
# Iterations of an asynchronous cycle

The run of a cycle is a run of its body above one continuation, and then another one. An iteration
may be suspended any number of times, and the worlds in which it is resumed may be any. It is
completed when the value of the body's last leaf is there and was accepted. Nothing waits then, so
the stack of the cycle is as deep as that of its deepest iteration.

Every future that a cycle becomes is known in this way: `AsyncGraph.spans_cycle_iff` says which
iterations were completed and where in the body's own run the next one is.
-/

namespace Deferral

namespace AsyncGraph

variable {σ V ρ : Type}

/-- What waits in a cycle while its body runs. -/
def nextIteration (body : AsyncGraph σ V ρ) (accept : V → Call σ Unit) :
    Graph.Continuation σ (Future σ V ρ) V ρ :=
  fun value => do
    let () ← accept value
    return .cycle body accept

/-- The largest number of continuations that wait at once in iterations with these peaks. -/
def iterationDepth : List Nat → Nat
  | [] => 0
  | peak :: peaks => max (iterationDepth peaks) (1 + peak)

/-- A cycle between two iterations. -/
def iterationHead (body : AsyncGraph σ V ρ) (accept : V → Call σ Unit) (depth : Nat) :
    Future σ V ρ :=
  .visit (.cycle body accept) (Pending.empty.raise depth)

/-- A cycle in the middle of an iteration. -/
def inIteration (body : AsyncGraph σ V ρ) (accept : V → Call σ Unit) (depth : Nat)
    (inner : Future σ V ρ) : Future σ V ρ :=
  inner.above ((Pending.empty.raise depth).push (body.nextIteration accept))

theorem stack_iterationHead (body : AsyncGraph σ V ρ) (accept : V → Call σ Unit) (depth : Nat) :
    (iterationHead body accept depth).stack.waiting = [] ∧
      (iterationHead body accept depth).stack.peak = depth := by
  simp [iterationHead, Future.stack, Pending.raise]

theorem stack_inIteration {inner : Future σ V ρ} (running : inner.IsRun) (body : AsyncGraph σ V ρ)
    (accept : V → Call σ Unit) (depth : Nat) :
    (inIteration body accept depth inner).stack.waiting.length = 1 + inner.stack.waiting.length ∧
      (inIteration body accept depth inner).stack.peak = max depth (1 + inner.stack.peak) := by
  rw [inIteration, running.stack_above]
  constructor
  · simp [Pending.above, Pending.raise, Nat.add_comm]
  · simp only [Pending.above, Pending.raise, Pending.peak_push, Pending.depth_push,
      Pending.peak_empty, Pending.depth_empty]
    omega

variable [Host σ V] [Equations ρ σ (Future σ V ρ) V]

/-- A run of a graph comes to its value, with a report of its peak as the only thing left to do. -/
def Completes (graph : AsyncGraph σ V ρ) (breaks : List (σ × σ)) (before : σ) (value : V)
    (peak : Nat) (after : σ) : Prop :=
  ∃ last, Future.Spans breaks (.ofGraph graph) before last after ∧ last.Concludes value peak

/-- Completed iterations, with the peak of the body's run in each, the latest first. -/
inductive Iterates (body : AsyncGraph σ V ρ) (accept : V → Call σ Unit) :
    List Nat → List (σ × σ) → σ → σ → Prop
  | start (world : σ) : Iterates body accept [] [] world world
  | iteration {peaks : List Nat} {peak : Nat} {breaks more : List (σ × σ)}
      {before between here after : σ} {value : V}
      (earlier : Iterates body accept peaks breaks before between)
      (completes : body.Completes more between value peak here)
      (accepted : accept value here = some (.ok (), after)) :
      Iterates body accept (peak :: peaks) (breaks ++ more) before after

/-- Iterations were completed, and the next one has come to a certain place in the body's run. -/
inductive Underway (body : AsyncGraph σ V ρ) (accept : V → Call σ Unit) :
    List Nat → List (σ × σ) → σ → Future σ V ρ → σ → Prop
  | ran {peaks : List Nat} {breaks more : List (σ × σ)} {before between after : σ}
      {inner : Future σ V ρ} (completed : Iterates body accept peaks breaks before between)
      (ran : Future.Spans more (.ofGraph body) between inner after) (running : inner.IsRun) :
      Underway body accept peaks (breaks ++ more) before inner after

/-- Where a cycle is. -/
inductive Iterating (body : AsyncGraph σ V ρ) (accept : V → Call σ Unit) :
    List Nat → List (σ × σ) → σ → Future σ V ρ → σ → Prop
  | between {peaks : List Nat} {breaks : List (σ × σ)} {before after : σ}
      (completed : Iterates body accept peaks breaks before after) :
      Iterating body accept peaks breaks before
        (iterationHead body accept (iterationDepth peaks)) after
  | inside {peaks : List Nat} {breaks : List (σ × σ)} {before after : σ} {inner : Future σ V ρ}
      (underway : Underway body accept peaks breaks before inner after) :
      Iterating body accept peaks breaks before
        (inIteration body accept (iterationDepth peaks) inner) after

variable {body : AsyncGraph σ V ρ} {accept : V → Call σ Unit} {peaks : List Nat} {depth : Nat}
  {breaks : List (σ × σ)} {inner last next : Future σ V ρ} {before between after : σ}

theorem Underway.isRun (underway : Underway body accept peaks breaks before inner after) :
    inner.IsRun := by
  rcases underway with ⟨_, _, running⟩
  exact running

theorem Iterating.underway (iterating : Iterating body accept peaks breaks before last after) :
    ∃ inner, Underway body accept peaks breaks before inner after := by
  cases iterating with
  | between completed =>
      have underway := Underway.ran completed (.start _ _) (Future.isRun_ofGraph body)
      rw [List.append_nil] at underway
      exact ⟨.ofGraph body, underway⟩
  | inside underway => exact ⟨_, underway⟩

theorem iterating_iff :
    Iterating body accept peaks breaks before last after ↔
      Iterates body accept peaks breaks before after ∧
          last = iterationHead body accept (iterationDepth peaks) ∨
        ∃ inner, Underway body accept peaks breaks before inner after ∧
          last = inIteration body accept (iterationDepth peaks) inner := by
  constructor
  · intro iterating
    cases iterating with
    | between completed => exact .inl ⟨completed, rfl⟩
    | inside underway => exact .inr ⟨_, underway, rfl⟩
  · rintro (⟨completed, rfl⟩ | ⟨inner, underway, rfl⟩)
    · exact .between completed
    · exact .inside underway

theorem step_iterationHead (body : AsyncGraph σ V ρ) (accept : V → Call σ Unit) (depth : Nat) :
    (iterationHead body accept depth).step =
      pure (.went (inIteration body accept depth (.ofGraph body))) := by
  have shape_eq : (Graph.cycle body accept : AsyncGraph σ V ρ).shape =
    .bind body (body.nextIteration accept) := rfl
  rw [iterationHead, Future.step_visit_of_bind shape_eq, inIteration,
    Future.ofGraph_above body (Pending.depth_le_peak_push _ _)]

theorem step_inIteration_of_concludes {value : V} {peak : Nat} (running : inner.IsRun)
    (concludes : inner.Concludes value peak) (accept : V → Call σ Unit) (depth : Nat) :
    (inIteration body accept depth inner).step =
      (fun _ => .went (iterationHead body accept (max depth (1 + peak)))) <$> accept value := by
  rw [inIteration, concludes.step_above running, Future.deliver, Pending.pop?_raise_push,
    Pending.raise_raise]
  simp only [nextIteration, bind_pure_comp, Functor.map_map]
  rfl

/-- A step of a cycle is one of the body's run, or shows that run's value to `accept`. -/
theorem step_inIteration (running : inner.IsRun) (body : AsyncGraph σ V ρ)
    (accept : V → Call σ Unit) (depth : Nat) :
    (∃ value peak, inner.Concludes value peak ∧ (inIteration body accept depth inner).step =
      (fun _ => .went (iterationHead body accept (max depth (1 + peak)))) <$> accept value) ∨
    (∀ value peak, ¬ inner.Concludes value peak) ∧ (inIteration body accept depth inner).step =
      Stepped.map (inIteration body accept depth) <$> inner.step := by
  rcases inner.concludes_or_not with ⟨value, peak, concludes⟩ | unconcluded
  · exact .inl ⟨value, peak, concludes, step_inIteration_of_concludes running concludes _ _⟩
  · exact .inr ⟨unconcluded, running.step_above unconcluded _⟩

theorem Iterating.start (body : AsyncGraph σ V ρ) (accept : V → Call σ Unit) (world : σ) :
    Iterating body accept [] [] world (.ofGraph (.cycle body accept)) world :=
  .between (.start world)

theorem Iterating.went (iterating : Iterating body accept peaks breaks before last between)
    (stepped : last.step between = some (.ok (.went next), after)) :
    ∃ peaks, Iterating body accept peaks breaks before next after := by
  cases iterating with
  | between completed =>
      rw [step_iterationHead] at stepped
      cases stepped
      have underway := Underway.ran completed (.start _ _) (Future.isRun_ofGraph body)
      rw [List.append_nil] at underway
      exact ⟨peaks, .inside underway⟩
  | inside underway =>
      rcases underway with ⟨completed, ran, running⟩
      rcases step_inIteration running body accept (iterationDepth peaks) with
        ⟨value, peak, concludes, step_eq⟩ | ⟨unconcluded, step_eq⟩
      · rw [step_eq] at stepped
        rcases Call.map_eq_ok_iff.mp stepped with ⟨_, accepted, went_eq⟩
        cases went_eq
        exact ⟨peak :: peaks, .between (.iteration completed ⟨_, ran, concludes⟩ accepted)⟩
      · rw [step_eq] at stepped
        rcases Stepped.went_of_map stepped with ⟨inner_next, inner_stepped, rfl⟩
        have further := ran.went running.value?_eq_none inner_stepped
        exact ⟨peaks, .inside (.ran completed further (running.step unconcluded inner_stepped))⟩

theorem Iterating.suspended {wake : Wake}
    (iterating : Iterating body accept peaks breaks before last between)
    (stepped : last.step between = some (.ok (.suspended wake next), after)) :
    ∃ inner rest, Underway body accept peaks breaks before inner between ∧
      inner.step between = some (.ok (.suspended wake rest), after) ∧ rest.IsRun ∧
      next = inIteration body accept (iterationDepth peaks) rest := by
  cases iterating with
  | between completed =>
      rw [step_iterationHead] at stepped
      cases stepped
  | inside underway =>
      rcases underway with ⟨completed, ran, running⟩
      rcases step_inIteration running body accept (iterationDepth peaks) with
        ⟨value, peak, concludes, step_eq⟩ | ⟨unconcluded, step_eq⟩
      · rw [step_eq] at stepped
        rcases Call.map_eq_ok_iff.mp stepped with ⟨_, _, stepped_eq⟩
        cases stepped_eq
      · rw [step_eq] at stepped
        rcases Stepped.suspended_of_map stepped with ⟨rest, inner_stepped, rfl⟩
        have resting := running.step unconcluded inner_stepped
        exact ⟨_, rest, .ran completed ran running, inner_stepped, resting, rfl⟩

theorem Underway.resumed {wake : Wake} {rest : Future σ V ρ}
    (underway : Underway body accept peaks breaks before inner between)
    (stepped : inner.step between = some (.ok (.suspended wake rest), after)) (running : rest.IsRun)
    (resumed : σ) :
    Underway body accept peaks (breaks ++ [(after, resumed)]) before rest resumed := by
  rcases underway with ⟨completed, ran, _⟩
  rw [List.append_assoc]
  exact .ran completed (ran.resumed stepped resumed) running

theorem exists_iterating
    (spans : Future.Spans breaks (.ofGraph (.cycle body accept)) before last after) :
    ∃ peaks, Iterating body accept peaks breaks before last after := by
  generalize first_eq : Future.ofGraph (.cycle body accept) = first at spans
  induction spans with
  | start future world =>
      cases first_eq
      exact ⟨[], .start body accept world⟩
  | went _ _ stepped ih =>
      rcases ih first_eq with ⟨peaks, iterating⟩
      exact iterating.went stepped
  | resumed _ stepped resumed ih =>
      rcases ih first_eq with ⟨peaks, iterating⟩
      rcases iterating.suspended stepped with ⟨inner, rest, underway, inner_stepped, running, rfl⟩
      exact ⟨peaks, .inside (underway.resumed inner_stepped running resumed)⟩

theorem spans_of_body {more : List (σ × σ)}
    (spans : Future.Spans breaks (.ofGraph (.cycle body accept)) before
      (iterationHead body accept depth) between)
    (ran : Future.Spans more (.ofGraph body) between inner after)
    (unfinished : inner.value? = none) :
    Future.Spans (breaks ++ more) (.ofGraph (.cycle body accept)) before
      (inIteration body accept depth inner) after := by
  have begun := spans.went rfl (congrFun (step_iterationHead body accept depth) between)
  exact begun.trans (ran.above (Future.isRun_ofGraph body) unfinished _)

theorem Iterates.spans (iterates : Iterates body accept peaks breaks before after) :
    Future.Spans breaks (.ofGraph (.cycle body accept)) before
      (iterationHead body accept (iterationDepth peaks)) after := by
  induction iterates with
  | start world => exact .start _ _
  | iteration _ completes accepted ih =>
      rcases completes with ⟨last, ran, concludes⟩
      have running := (Future.isRun_ofGraph body).spans ran concludes.value?_eq_none
      refine (spans_of_body ih ran running.value?_eq_none).went (running.value?_above _) ?_
      rw [step_inIteration_of_concludes running concludes]
      exact Call.map_of_ok _ accepted

theorem Iterating.spans (iterating : Iterating body accept peaks breaks before last after) :
    Future.Spans breaks (.ofGraph (.cycle body accept)) before last after := by
  cases iterating with
  | between completed => exact completed.spans
  | inside underway =>
      rcases underway with ⟨completed, ran, running⟩
      exact spans_of_body completed.spans ran running.value?_eq_none

/-- The steps of a cycle are iterations of its body one after another. -/
theorem spans_cycle_iff :
    Future.Spans breaks (.ofGraph (.cycle body accept)) before last after ↔
      ∃ peaks, Iterating body accept peaks breaks before last after := by
  constructor
  · intro spans
    exact exists_iterating spans
  · rintro ⟨peaks, iterating⟩
    exact iterating.spans

end AsyncGraph

end Deferral

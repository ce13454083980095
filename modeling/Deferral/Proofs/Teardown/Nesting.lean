import Deferral.Proofs.Teardown.Released

/-!
# How deep destructions nest

A destruction of a node that is under way is a `leave` task that waits. One that opened the queue of
its family waits behind the task that drains this queue, and there is one such task for an open
queue. Any other has handed its orphans to an open queue or has none, so that nothing is done before
it comes back: it is the task at the very front. So no family ever has more than two destructions
under way, whatever the heap looks like and however deep its nodes nest.
-/

namespace Deferral

namespace Teardown

/-- All destructions that are under way drain a queue before they come back. -/
inductive Draining : List Task → Prop
  | nil : Draining []
  | drop {address : Address} {tasks : List Task} (rest : Draining tasks) :
      Draining (.drop address :: tasks)
  | drain {family : Family} {tasks : List Task} (rest : Draining tasks) :
      Draining (.drain family :: .leave family :: tasks)

/-- The same, but for a destruction at the front that is about to come back. -/
inductive Nested : List Task → Prop
  | draining {tasks : List Task} (draining : Draining tasks) : Nested tasks
  | returning {family : Family} {tasks : List Task} (draining : Draining tasks) :
      Nested (.leave family :: tasks)

variable {teardown next : Teardown} {tasks : List Task} {family : Family}

theorem Draining.append (addresses : List Address) (draining : Draining tasks) :
    Draining (addresses.map .drop ++ tasks) := by
  induction addresses with
  | nil => exact draining
  | cons address addresses ih => exact .drop ih

theorem Draining.of_drop {address : Address} (draining : Draining (.drop address :: tasks)) :
    Draining tasks := by
  cases draining with
  | drop rest => exact rest

theorem Draining.of_drain (draining : Draining (.drain family :: tasks)) : Nested tasks := by
  cases draining with
  | drain rest => exact .returning rest

theorem Draining.count_leave (draining : Draining tasks) (family : Family) :
    tasks.count (.leave family) = tasks.count (.drain family) := by
  induction draining with
  | nil => rfl
  | drop _ ih => simpa using ih
  | drain _ ih => simp [List.count_cons, ih]

namespace Nested

theorem of_drop {address : Address} (nested : Nested (.drop address :: tasks)) :
    Draining tasks := by
  cases nested with
  | draining draining => exact draining.of_drop

theorem of_drain (nested : Nested (.drain family :: tasks)) :
    Draining (.drain family :: tasks) := by
  cases nested with
  | draining draining => exact draining

theorem of_leave (nested : Nested (.leave family :: tasks)) : Draining tasks := by
  cases nested with
  | draining draining => cases draining
  | returning draining => exact draining

theorem handOver (draining : Draining teardown.tasks) (family : Family)
    (orphans : List Address) : Nested (teardown.handOver family orphans).tasks := by
  unfold Teardown.handOver
  split
  · exact .returning draining
  · exact .returning draining
  · apply Nested.draining
    apply Draining.append
    exact .drain draining

theorem steps (nested : Nested teardown.tasks) (steps : teardown.Steps next) :
    Nested next.tasks := by
  cases steps with
  | absent tasks_eq | givesUp tasks_eq =>
      rw [tasks_eq] at nested
      exact .draining nested.of_drop
  | destroysClosure tasks_eq =>
      rw [tasks_eq] at nested
      exact .draining (nested.of_drop.append _)
  | destroysNode tasks_eq =>
      rw [tasks_eq] at nested
      exact handOver nested.of_drop _ _
  | finds tasks_eq | closes tasks_eq =>
      rw [tasks_eq] at nested
      exact nested.of_drain.of_drain
  | takes tasks_eq =>
      rw [tasks_eq] at nested
      exact .draining (nested.of_drain.append _)
  | leaves tasks_eq =>
      rw [tasks_eq] at nested
      exact .draining nested.of_leave

theorem reaches (nested : Nested teardown.tasks) (reached : Reaches teardown next) :
    Nested next.tasks := by
  induction reached with
  | refl => exact nested
  | step _ step_eq ih => exact ih.steps (steps_of_step step_eq)

end Nested

theorem Drained.reaches (drained : teardown.Drained) (reached : Reaches teardown next) :
    next.Drained := by
  induction reached with
  | refl => exact drained
  | step _ step_eq ih => exact ih.steps (steps_of_step step_eq)

/-- What nests at a moment: a destruction for each open queue, and the one that is about to come
back. -/
theorem Nested.activations_eq (nested : Nested teardown.tasks) (drained : teardown.Drained)
    (family : Family) :
    teardown.activations family =
      (if (teardown.queues.get family).isSome then 1 else 0) +
        if teardown.tasks.head? = some (.leave family) then 1 else 0 := by
  have open_eq := drained family
  unfold activations
  generalize teardown.tasks = tasks at nested open_eq
  cases nested with
  | draining draining =>
      have not_back : tasks.head? ≠ some (.leave family) := by
        cases draining <;> simp
      simp [draining.count_leave, open_eq, not_back]
  | @returning inner tasks draining =>
      have below : tasks.count (.leave family) =
          if (teardown.queues.get family).isSome then 1 else 0 := by
        rw [draining.count_leave, ← open_eq]
        simp
      simp [List.count_cons, below]

/-- While a handle is released, no family ever has more than two destructions of its nodes under
way. If it has two, the outer one drains the open queue of the family, and the inner one has
enqueued what it had to and comes back with the next step. Of both families together there are three
at most. -/
theorem activations_bounded (heap : Heap) (handle : Address) {teardown : Teardown}
    (reached : Reaches (start heap handle) teardown) :
    (∀ family, teardown.activations family ≤ 2) ∧
    (∀ family, teardown.activations family = 2 → ∃ tasks,
      teardown.tasks = .leave family :: tasks ∧ tasks.count (.leave family) = 1 ∧
        tasks.count (.drain family) = 1 ∧ (teardown.queues.get family).isSome) ∧
    teardown.activations .immediate + teardown.activations .asynchronous ≤ 3 := by
  have drained : teardown.Drained := by
    apply Drained.reaches _ reached
    intro family
    simp [start]
  have nested : Nested teardown.tasks := by
    apply Nested.reaches _ reached
    exact .draining (.drop .nil)
  have activations_eq := nested.activations_eq drained
  refine ⟨?_, ?_, ?_⟩
  · intro family
    rw [activations_eq]
    split <;> split <;> omega
  · intro family two
    have both : (teardown.queues.get family).isSome ∧
        teardown.tasks.head? = some (.leave family) := by
      have sum_eq := activations_eq family
      rw [two] at sum_eq
      by_cases is_open : (teardown.queues.get family).isSome
      · by_cases at_front : teardown.tasks.head? = some (.leave family)
        · exact ⟨is_open, at_front⟩
        · simp [is_open, at_front] at sum_eq
      · by_cases at_front : teardown.tasks.head? = some (.leave family) <;>
          simp [is_open, at_front] at sum_eq
    rcases both with ⟨is_open, at_front⟩
    rcases List.head?_eq_some_iff.mp at_front with ⟨tasks, tasks_eq⟩
    have outer : tasks.count (.leave family) = 1 := by
      simpa [activations, tasks_eq] using two
    have draining : tasks.count (.drain family) = 1 := by
      simpa [tasks_eq, is_open] using drained family
    exact ⟨tasks, tasks_eq, outer, draining, is_open⟩
  · rw [activations_eq, activations_eq]
    -- Only one of the two families can be at the front.
    by_cases at_front : teardown.tasks.head? = some (.leave .immediate)
    · simp only [at_front, if_true, Option.some.injEq, Task.leave.injEq, reduceCtorEq, if_false]
      split <;> split <;> omega
    · simp only [at_front, if_false]
      split <;> split <;> split <;> omega

/-- The teardown after so many steps, if there are so many. -/
def stepTimes : Nat → Teardown → Option Teardown
  | 0, teardown => some teardown
  | times + 1, teardown => teardown.step.bind (stepTimes times)

theorem reaches_of_stepTimes {times : Nat} (stepped : teardown.stepTimes times = some next) :
    Reaches teardown next := by
  induction times generalizing teardown with
  | zero =>
      cases stepped
      exact .refl _
  | succ times ih =>
      rcases Option.bind_eq_some_iff.mp stepped with ⟨second, step_eq, rest⟩
      exact .head step_eq (ih rest)

/-- Nodes of both families that hold each other nest as deep as this allows. -/
theorem activations_crossed :
    ∃ teardown, Reaches (start Heap.crossed 0) teardown ∧
      teardown.activations .immediate = 2 ∧ teardown.activations .asynchronous = 1 ∧
      ∃ tasks, teardown.tasks = .leave .immediate :: tasks ∧ tasks.count (.leave .immediate) = 1 ∧
        tasks.count (.drain .immediate) = 1 ∧ (teardown.queues.get .immediate).isSome := by
  have eighth : ∃ teardown ∈ (start Heap.crossed 0).stepTimes 8,
      teardown.activations .immediate = 2 ∧ teardown.activations .asynchronous = 1 := by decide
  rcases eighth with ⟨teardown, stepped, two, one⟩
  have reached := reaches_of_stepTimes stepped
  have bounded := activations_bounded Heap.crossed 0 reached
  exact ⟨teardown, reached, two, one, bounded.2.1 .immediate two⟩

end Teardown

end Deferral

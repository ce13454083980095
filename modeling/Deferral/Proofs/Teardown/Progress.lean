import Deferral.Proofs.Teardown.Emptied

/-!
# What a teardown keeps

A teardown owes the references that its tasks are to give up and those that wait in the queues. If
these are counted as handles, the counts of the heap are right after every step. An object is either
as it was or among the destroyed ones, and it is destroyed once. A queue is open as long as there is
a task that drains it, and there is at most one.
-/

namespace Deferral

namespace Teardown

section Owed

/-- The references that tasks give up. -/
def dropsOf : List Task → List Address
  | [] => []
  | .drop address :: tasks => address :: dropsOf tasks
  | .drain _ :: tasks | .leave _ :: tasks => dropsOf tasks

theorem dropsOf_append (addresses : List Address) (tasks : List Task) :
    dropsOf (addresses.map .drop ++ tasks) = addresses ++ dropsOf tasks := by
  induction addresses with
  | nil => rfl
  | cons address addresses ih => rw [List.map_cons, List.cons_append, dropsOf, ih, List.cons_append]

theorem count_drain_append (family : Family) (addresses : List Address) (tasks : List Task) :
    (addresses.map Task.drop ++ tasks).count (.drain family) = tasks.count (.drain family) := by
  induction addresses with
  | nil => rfl
  | cons address addresses ih => simpa using ih

namespace Queues

/-- What waits in a queue, if it is open. -/
def waitingIn : Option (List Address) → List Address
  | none => []
  | some waiting => waiting

/-- All references in the queues. -/
def waiting (queues : Queues) : List Address :=
  waitingIn (queues.get .immediate) ++ waitingIn (queues.get .asynchronous)

theorem count_waiting_set (queues : Queues) (content : Option (List Address)) (family : Family)
    (address : Address) :
    (queues.set content family).waiting.count address +
        (waitingIn (queues.get family)).count address =
      queues.waiting.count address + (waitingIn content).count address := by
  cases family <;> simp only [waiting, set, get, List.count_append] <;> omega

theorem eq_closed_of_get (queues : Queues) (all_none : ∀ family, queues.get family = none) :
    queues = .closed := by
  have immediate := all_none .immediate
  have asynchronous := all_none .asynchronous
  rcases queues with ⟨first, second⟩
  cases immediate
  cases asynchronous
  rfl

end Queues

/-- The references that are still to be given up. -/
def owed (teardown : Teardown) : List Address :=
  dropsOf teardown.tasks ++ teardown.queues.waiting

end Owed

/-- Everything that one step can do. -/
inductive Steps (teardown : Teardown) : Teardown → Prop
  | absent {address : Address} {tasks : List Task}
      (tasks_eq : teardown.tasks = .drop address :: tasks)
      (cell_eq : teardown.heap.cell? address = none) : Steps teardown { teardown with tasks }
  | givesUp {address : Address} {tasks : List Task} {cell : Cell}
      (tasks_eq : teardown.tasks = .drop address :: tasks)
      (cell_eq : teardown.heap.cell? address = some cell) (shared : cell.count ≠ 1) :
      Steps teardown
        { teardown with
          heap := teardown.heap.put address (some { cell with count := cell.count - 1 })
          tasks }
  | destroysClosure {address : Address} {tasks : List Task} {cell : Cell}
      (tasks_eq : teardown.tasks = .drop address :: tasks)
      (cell_eq : teardown.heap.cell? address = some cell) (last : cell.count = 1)
      (family_eq : cell.object.family? = none) :
      Steps teardown
        { teardown with
          heap := teardown.heap.put address none
          tasks := cell.object.references.map .drop ++ tasks
          destroyed := address :: teardown.destroyed }
  | destroysNode {address : Address} {tasks : List Task} {cell : Cell} {family : Family}
      (tasks_eq : teardown.tasks = .drop address :: tasks)
      (cell_eq : teardown.heap.cell? address = some cell) (last : cell.count = 1)
      (family_eq : cell.object.family? = some family) :
      Steps teardown
        (handOver family ((teardown.heap.put address none).detach cell.object.references).1
          { teardown with
            heap := ((teardown.heap.put address none).detach cell.object.references).2
            tasks
            destroyed := address :: teardown.destroyed })
  | finds {family : Family} {tasks : List Task}
      (tasks_eq : teardown.tasks = .drain family :: tasks)
      (queue_eq : teardown.queues.get family = none) : Steps teardown { teardown with tasks }
  | closes {family : Family} {tasks : List Task}
      (tasks_eq : teardown.tasks = .drain family :: tasks)
      (queue_eq : teardown.queues.get family = some []) :
      Steps teardown { teardown with queues := teardown.queues.set none family, tasks }
  | takes {family : Family} {tasks : List Task} {batch : List Address}
      (tasks_eq : teardown.tasks = .drain family :: tasks)
      (queue_eq : teardown.queues.get family = some batch) :
      Steps teardown
        { teardown with
          queues := teardown.queues.set (some []) family
          tasks := batch.map .drop ++ .drain family :: tasks }
  | leaves {family : Family} {tasks : List Task}
      (tasks_eq : teardown.tasks = .leave family :: tasks) : Steps teardown { teardown with tasks }

theorem steps_of_step {teardown next : Teardown} (step_eq : teardown.step = some next) :
    teardown.Steps next := by
  unfold step at step_eq
  split at step_eq
  · cases step_eq
  · rename_i address tasks tasks_eq
    obtain rfl := Option.some.inj step_eq
    unfold drop
    split
    · rename_i cell_eq
      exact .absent tasks_eq cell_eq
    · rename_i cell cell_eq
      split
      · rename_i last
        unfold destroy
        split
        · rename_i family_eq
          exact .destroysClosure tasks_eq cell_eq last family_eq
        · rename_i family family_eq
          exact .destroysNode tasks_eq cell_eq last family_eq
      · rename_i shared
        exact .givesUp tasks_eq cell_eq shared
  · rename_i family tasks tasks_eq
    obtain rfl := Option.some.inj step_eq
    unfold drain
    split
    · rename_i queue_eq
      exact .finds tasks_eq queue_eq
    · rename_i queue_eq
      exact .closes tasks_eq queue_eq
    · rename_i batch _ queue_eq
      exact .takes tasks_eq queue_eq
  · rename_i family tasks tasks_eq
    obtain rfl := Option.some.inj step_eq
    exact .leaves tasks_eq

section HandOver

variable (family : Family) (orphans : List Address) (teardown : Teardown)

@[simp]
theorem destroyed_handOver : (teardown.handOver family orphans).destroyed = teardown.destroyed := by
  unfold handOver
  split <;> rfl

/-- The orphans of a node are owed from then on, in the queue or at once. -/
theorem count_owed_handOver (address : Address) :
    (teardown.handOver family orphans).owed.count address =
      orphans.count address + teardown.owed.count address := by
  unfold handOver
  split
  · simp [owed, dropsOf]
  · rename_i orphans _ _ waiting _ queue_eq
    have set_count := teardown.queues.count_waiting_set (some (waiting ++ orphans)) family address
    simp only [queue_eq, Queues.waitingIn, List.count_append] at set_count
    simp only [owed, dropsOf, List.count_append]
    omega
  · rename_i queue_eq
    have set_count := teardown.queues.count_waiting_set (some []) family address
    simp only [queue_eq, Queues.waitingIn, List.count_nil, Nat.add_zero] at set_count
    simp only [owed, dropsOf_append, dropsOf, List.count_append]
    omega

end HandOver

/-- The counts are right if what is owed is counted as well. -/
def Accounted (others : List Address) (teardown : Teardown) : Prop :=
  teardown.heap.Counted (teardown.owed ++ others)

/-- A step gives up what it takes from what is owed. -/
theorem Accounted.steps {others : List Address} {teardown next : Teardown}
    (accounted : teardown.Accounted others) (steps : teardown.Steps next) :
    next.Accounted others := by
  have owed_of_tasks {tasks : List Task} (tasks_eq : teardown.tasks = tasks) :
      teardown.heap.Counted (dropsOf tasks ++ teardown.queues.waiting ++ others) :=
    tasks_eq ▸ accounted
  cases steps with
  | absent tasks_eq cell_eq =>
      rcases (owed_of_tasks tasks_eq).exists_cell List.mem_cons_self with ⟨cell, found_eq⟩
      rw [cell_eq] at found_eq
      cases found_eq
  | givesUp tasks_eq cell_eq shared => exact (owed_of_tasks tasks_eq).giveUp cell_eq shared
  | @destroysClosure _ tasks cell tasks_eq cell_eq last family_eq =>
      have removed : Heap.Counted _
          (cell.object.references ++ (dropsOf tasks ++ teardown.queues.waiting ++ others)) :=
        (owed_of_tasks tasks_eq).remove cell_eq last
      refine removed.congr fun address => ?_
      simp only [owed, dropsOf_append, List.count_append]
      omega
  | @destroysNode address tasks cell family tasks_eq cell_eq last family_eq =>
      have removed : Heap.Counted _
          (cell.object.references ++ (dropsOf tasks ++ teardown.queues.waiting ++ others)) :=
        (owed_of_tasks tasks_eq).remove cell_eq last
      rw [Accounted, heap_handOver]
      refine removed.detach.congr fun other => ?_
      have handed := count_owed_handOver family
        ((teardown.heap.put address none).detach cell.object.references).1
        { teardown with
          heap := ((teardown.heap.put address none).detach cell.object.references).2
          tasks
          destroyed := address :: teardown.destroyed } other
      simp only [owed, List.count_append] at handed ⊢
      omega
  | finds tasks_eq | leaves tasks_eq =>
      have unchanged := owed_of_tasks tasks_eq
      exact unchanged
  -- What waited in the queue is owed as before, as nothing or by a task.
  | @closes family _ tasks_eq queue_eq =>
      refine (owed_of_tasks tasks_eq).congr fun address => ?_
      have set_count := teardown.queues.count_waiting_set none family address
      simp only [queue_eq, Queues.waitingIn, List.count_nil, Nat.add_zero] at set_count
      simp only [owed, dropsOf, List.count_append]
      omega
  | @takes family _ batch tasks_eq queue_eq =>
      refine (owed_of_tasks tasks_eq).congr fun address => ?_
      have set_count := teardown.queues.count_waiting_set (some []) family address
      simp only [queue_eq, Queues.waitingIn, List.count_nil, Nat.add_zero] at set_count
      simp only [owed, dropsOf_append, dropsOf, List.count_append]
      omega

/-- A step destroys at most one object, which was there until then. -/
theorem Heap.Emptied.steps {heap : Heap} {teardown next : Teardown}
    (emptied : heap.Emptied teardown.destroyed teardown.heap) (steps : teardown.Steps next) :
    heap.Emptied next.destroyed next.heap := by
  cases steps with
  | absent | finds | closes | takes | leaves => exact emptied
  | givesUp tasks_eq cell_eq => exact emptied.trans (.put_count _ cell_eq)
  | destroysClosure tasks_eq cell_eq => exact emptied.trans (.put_none cell_eq)
  | destroysNode tasks_eq cell_eq =>
      rw [heap_handOver, destroyed_handOver]
      exact emptied.trans ((Heap.Emptied.put_none cell_eq).trans (.detach _ _))

/-- Each queue is drained by one task while it is open, and by none while it is closed. -/
def Drained (teardown : Teardown) : Prop :=
  ∀ family, teardown.tasks.count (.drain family) =
    if (teardown.queues.get family).isSome then 1 else 0

theorem Drained.handOver {teardown : Teardown} (drained : teardown.Drained) (family : Family)
    (orphans : List Address) : (teardown.handOver family orphans).Drained := by
  intro other
  have counted := drained other
  unfold Teardown.handOver
  split
  · simpa using counted
  · rename_i waiting queue_eq
    by_cases same : other = family
    · subst same
      simpa [queue_eq] using counted
    · simpa [Queues.get_set_of_ne _ _ same] using counted
  · rename_i queue_eq
    simp only [count_drain_append]
    by_cases same : other = family
    · subst same
      simpa [queue_eq] using counted
    · simpa [Queues.get_set_of_ne _ _ same, Ne.symm same] using counted

theorem Drained.steps {teardown next : Teardown} (drained : teardown.Drained)
    (steps : teardown.Steps next) : next.Drained := by
  have counted_of_tasks {tasks : List Task} (tasks_eq : teardown.tasks = tasks) (other : Family) :
      tasks.count (.drain other) = if (teardown.queues.get other).isSome then 1 else 0 :=
    tasks_eq ▸ drained other
  cases steps with
  | absent tasks_eq | givesUp tasks_eq | leaves tasks_eq =>
      intro other
      simpa using counted_of_tasks tasks_eq other
  | destroysClosure tasks_eq =>
      intro other
      have counted := counted_of_tasks tasks_eq other
      simp only [count_drain_append]
      simpa using counted
  | destroysNode tasks_eq =>
      refine Drained.handOver (fun other => ?_) _ _
      simpa using counted_of_tasks tasks_eq other
  | @finds family _ tasks_eq queue_eq =>
      have counted := counted_of_tasks tasks_eq family
      simp [queue_eq] at counted
  | @closes family _ tasks_eq queue_eq =>
      intro other
      have counted := counted_of_tasks tasks_eq other
      by_cases same : other = family
      · subst same
        simpa [queue_eq] using counted
      · simpa [Queues.get_set_of_ne _ _ same, Ne.symm same] using counted
  | @takes family _ _ tasks_eq queue_eq =>
      intro other
      have counted := counted_of_tasks tasks_eq other
      simp only [count_drain_append]
      by_cases same : other = family
      · subst same
        simpa [queue_eq] using counted
      · simpa [Queues.get_set_of_ne _ _ same] using counted

end Teardown

end Deferral

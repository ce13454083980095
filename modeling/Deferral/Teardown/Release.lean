import Deferral.Teardown.Heap

/-!
# Releasing handles without recursion

Destroying an object gives up its references, which may destroy further objects, and so on down the
whole of a graph. If each destruction waited for those below it, a long graph would nest them as
deep as it is long. So a node does not destroy its children. The first node that is destroyed opens
a queue for its family and drains it; every other node that is destroyed meanwhile hands its last
references to the queue and is done.

`Teardown.step` does one thing of the work that is under way and `Teardown.finish` does all of it.
The destructions that have begun and not ended are the `leave` tasks that wait, so their nesting is
the number of these.
-/

namespace Deferral.Teardown

/-- Something that is to be done in a teardown. A reference is given up by `drop`. -/
inductive Task where
  | drop (address : Address)
  /-- Give up what is in the queue of a family, until it stays empty, and close it. -/
  | drain (family : Family)
  /-- Come back from the destruction of a node. -/
  | leave (family : Family)
  deriving Repr, DecidableEq

/-- A queue of references for each family, or nothing for a family that is not being drained. -/
structure Queues where
  immediate : Option (List Address)
  asynchronous : Option (List Address)
  deriving Repr, DecidableEq

namespace Queues

/-- No family is being drained. -/
def closed : Queues where
  immediate := none
  asynchronous := none

/-- The queue of a family. -/
def get (queues : Queues) : Family → Option (List Address)
  | .immediate => queues.immediate
  | .asynchronous => queues.asynchronous

/-- The queues with another content for one family. -/
def set (queues : Queues) (content : Option (List Address)) : Family → Queues
  | .immediate => { queues with immediate := content }
  | .asynchronous => { queues with asynchronous := content }

/-- The number of references in a queue. -/
def lengthOf : Option (List Address) → Nat
  | none => 0
  | some waiting => waiting.length

/-- The number of references in both queues. -/
def size (queues : Queues) : Nat :=
  lengthOf queues.immediate + lengthOf queues.asynchronous

@[simp]
theorem get_closed (family : Family) : closed.get family = none := by
  cases family <;> rfl

@[simp]
theorem get_set_self (queues : Queues) (content : Option (List Address)) (family : Family) :
    (queues.set content family).get family = content := by
  cases family <;> rfl

theorem get_set_of_ne (queues : Queues) (content : Option (List Address)) {family other : Family}
    (different : other ≠ family) : (queues.set content family).get other = queues.get other := by
  cases family <;> cases other <;> first | rfl | exact absurd rfl different

theorem size_set (queues : Queues) (content : Option (List Address)) (family : Family) :
    (queues.set content family).size + lengthOf (queues.get family) =
      queues.size + lengthOf content := by
  cases family <;> simp only [set, get, size] <;> omega

end Queues

/-- Take references away from their holder. The last ones to their objects are kept as orphans, the
others are given up. -/
def Heap.detach : List Address → Heap → List Address × Heap
  | [], heap => ([], heap)
  | address :: addresses, heap =>
    match heap.cell? address with
    | none => detach addresses heap
    | some cell =>
      if cell.count = 1 then
        let (orphans, heap) := detach addresses heap
        (address :: orphans, heap)
      else
        detach addresses (heap.put address (some { cell with count := cell.count - 1 }))

end Teardown

/-- A teardown that is under way. -/
structure Teardown where
  heap : Teardown.Heap
  queues : Teardown.Queues
  /-- What is to be done, in this order. -/
  tasks : List Teardown.Task
  /-- The objects destroyed so far, the last one first. -/
  destroyed : List Teardown.Address
  deriving Repr, DecidableEq

namespace Teardown

/-- A handle is to be given up, and nothing is done yet. -/
def start (heap : Heap) (handle : Address) : Teardown where
  heap := heap
  queues := .closed
  tasks := [.drop handle]
  destroyed := []

/-- A node is being destroyed and has been parted from its children. Orphans go into the queue of
the family if it is open; otherwise it is opened, and they are given up before it is drained. -/
def handOver (family : Family) (orphans : List Address) (teardown : Teardown) : Teardown :=
  match orphans, teardown.queues.get family with
  | [], _ => { teardown with tasks := .leave family :: teardown.tasks }
  | _, some waiting =>
    { teardown with
      queues := teardown.queues.set (some (waiting ++ orphans)) family
      tasks := .leave family :: teardown.tasks }
  | _, none =>
    { teardown with
      queues := teardown.queues.set (some []) family
      tasks := orphans.map .drop ++ .drain family :: .leave family :: teardown.tasks }

/-- Destroy an object whose last reference was given up. -/
def destroy (address : Address) (object : Object) (teardown : Teardown) : Teardown :=
  let heap := teardown.heap.put address none
  let destroyed := address :: teardown.destroyed
  match object.family? with
  | none =>
    { teardown with heap, destroyed, tasks := object.references.map .drop ++ teardown.tasks }
  | some family =>
    let (orphans, heap) := heap.detach object.references
    { teardown with heap, destroyed }.handOver family orphans

/-- Give up a reference. With the last one the object is destroyed. -/
def drop (address : Address) (teardown : Teardown) : Teardown :=
  match teardown.heap.cell? address with
  | none => teardown
  | some cell =>
    if cell.count = 1 then
      teardown.destroy address cell.object
    else
      { teardown with
        heap := teardown.heap.put address (some { cell with count := cell.count - 1 }) }

/-- Give up everything that is in the queue of a family and look again, or close the queue. -/
def drain (family : Family) (teardown : Teardown) : Teardown :=
  match teardown.queues.get family with
  | none => teardown
  | some [] => { teardown with queues := teardown.queues.set none family }
  | some batch =>
    { teardown with
      queues := teardown.queues.set (some []) family
      tasks := batch.map .drop ++ .drain family :: teardown.tasks }

/-- Do the first of the tasks. -/
def step (teardown : Teardown) : Option Teardown :=
  match teardown.tasks with
  | [] => none
  | .drop address :: tasks => some ({ teardown with tasks }.drop address)
  | .drain family :: tasks => some ({ teardown with tasks }.drain family)
  | .leave _ :: tasks => some { teardown with tasks }

/-- The number of destructions of nodes of a family that have begun and not ended. -/
def activations (family : Family) (teardown : Teardown) : Nat :=
  teardown.tasks.count (.leave family)

/-- One teardown comes out of another by doing some of the work. -/
inductive Reaches : Teardown → Teardown → Prop
  | refl (teardown : Teardown) : Reaches teardown teardown
  | step {first second third : Teardown} (reached : Reaches first second)
      (step_eq : second.step = some third) : Reaches first third

/-- What is left of a teardown grows smaller: references first, then queued ones, then tasks. -/
def Smaller (next teardown : Teardown) : Prop :=
  Prod.Lex (· < ·) (Prod.Lex (· < ·) (· < ·))
    (next.heap.weight, next.queues.size, next.tasks.length)
    (teardown.heap.weight, teardown.queues.size, teardown.tasks.length)

theorem Smaller.of_weight {next teardown : Teardown}
    (lighter : next.heap.weight < teardown.heap.weight) : Smaller next teardown :=
  .left _ _ lighter

theorem Smaller.of_size {next teardown : Teardown}
    (weight_eq : next.heap.weight = teardown.heap.weight)
    (fewer : next.queues.size < teardown.queues.size) : Smaller next teardown := by
  unfold Smaller
  rw [weight_eq]
  exact .right _ (.left _ _ fewer)

theorem Smaller.of_length {next teardown : Teardown}
    (weight_eq : next.heap.weight = teardown.heap.weight)
    (size_eq : next.queues.size = teardown.queues.size)
    (shorter : next.tasks.length < teardown.tasks.length) : Smaller next teardown := by
  unfold Smaller
  rw [weight_eq, size_eq]
  exact .right _ (.right _ shorter)

theorem Heap.weight_detach_le (addresses : List Address) (heap : Heap) :
    (heap.detach addresses).2.weight ≤ heap.weight := by
  fun_induction Heap.detach addresses heap with
  | case1 => exact Nat.le_refl _
  | case2 _ _ _ _ ih => exact ih
  | case3 _ _ _ _ _ _ _ _ detached ih =>
      rw [detached] at ih
      exact ih
  | case4 address _ heap cell cell_eq _ ih =>
      have put_weight :=
        heap.weight_put address (some { cell with count := cell.count - 1 }) cell_eq
      simp only [countOf] at put_weight
      omega

@[simp]
theorem heap_handOver (family : Family) (orphans : List Address) (teardown : Teardown) :
    (teardown.handOver family orphans).heap = teardown.heap := by
  unfold handOver
  split <;> rfl

theorem weight_destroy_lt (teardown : Teardown) (address : Address) {cell : Cell}
    (cell_eq : teardown.heap.cell? address = some cell) (count_eq : cell.count = 1) :
    (teardown.destroy address cell.object).heap.weight < teardown.heap.weight := by
  have cleared := teardown.heap.weight_put address none cell_eq
  simp only [Heap.countOf] at cleared
  unfold destroy
  split
  · simp only
    omega
  · have detached :=
      (teardown.heap.put address none).weight_detach_le cell.object.references
    simp only [heap_handOver]
    omega

theorem smaller_step {teardown next : Teardown} (step_eq : teardown.step = some next) :
    Smaller next teardown := by
  unfold step at step_eq
  split at step_eq
  · simp at step_eq
  · rename_i address tasks tasks_eq
    obtain rfl := Option.some.inj step_eq
    unfold drop
    split
    · exact .of_length rfl rfl (by simp [tasks_eq])
    · rename_i cell cell_eq
      split
      · rename_i count_eq
        exact .of_weight (weight_destroy_lt { teardown with tasks } address cell_eq count_eq)
      · have put_weight :=
          teardown.heap.weight_put address (some { cell with count := cell.count - 1 }) cell_eq
        simp only [Heap.countOf] at put_weight
        by_cases count_zero : cell.count = 0
        · refine .of_length ?_ rfl (by simp [tasks_eq])
          simp only
          omega
        · refine .of_weight ?_
          simp only
          omega
  · rename_i family tasks tasks_eq
    obtain rfl := Option.some.inj step_eq
    unfold drain
    split
    · exact .of_length rfl rfl (by simp [tasks_eq])
    · rename_i queue_eq
      have set_size := teardown.queues.size_set none family
      simp only at queue_eq
      simp only [queue_eq, Queues.lengthOf, List.length_nil] at set_size
      exact .of_length rfl set_size (by simp [tasks_eq])
    · rename_i batch not_nil queue_eq
      have set_size := teardown.queues.size_set (some []) family
      simp only at queue_eq
      simp only [queue_eq, Queues.lengthOf, List.length_nil] at set_size
      have positive : 0 < batch.length :=
        List.length_pos_iff.2 fun nil => not_nil (nil ▸ rfl)
      refine .of_size rfl ?_
      simp only
      omega
  · rename_i tasks tasks_eq
    obtain rfl := Option.some.inj step_eq
    exact .of_length rfl rfl (by simp [tasks_eq])

/-- Do everything that is to be done. -/
def finish (teardown : Teardown) : Teardown :=
  match _ : teardown.step with
  | none => teardown
  | some next => next.finish
termination_by (teardown.heap.weight, teardown.queues.size, teardown.tasks.length)
decreasing_by exact smaller_step ‹_›

end Teardown

/-- Give up a handle and do all the work that this makes. -/
def Teardown.Heap.release (handle : Teardown.Address) (heap : Teardown.Heap) : Teardown :=
  (Teardown.start heap handle).finish

end Deferral

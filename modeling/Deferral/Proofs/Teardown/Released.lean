import Deferral.Proofs.Teardown.Progress
import Deferral.Proofs.Teardown.Recursive

/-!
# What a teardown frees

Releasing a handle ends with closed queues and with nothing owed. So the counts of what is left are
right for the handles that remain, and the destroyed objects are those that plain recursion would
have destroyed: the ones that no remaining handle leads to.
-/

namespace Deferral

namespace Teardown

section Run

theorem Reaches.head {first second third : Teardown} (step_eq : first.step = some second)
    (reached : Reaches second third) : Reaches first third := by
  induction reached with
  | refl => exact .step (.refl first) step_eq
  | step _ last_eq ih => exact .step ih last_eq

theorem step_finish (teardown : Teardown) : teardown.finish.step = none := by
  fun_induction finish teardown with
  | case1 teardown step_eq => exact step_eq
  | case2 _ _ _ ih => exact ih

theorem reaches_finish (teardown : Teardown) : Reaches teardown teardown.finish := by
  fun_induction finish teardown with
  | case1 teardown => exact .refl teardown
  | case2 _ _ step_eq ih => exact .head step_eq ih

theorem step_eq_none_iff (teardown : Teardown) : teardown.step = none ↔ teardown.tasks = [] := by
  unfold step
  split <;> simp_all

end Run

/-- What every moment of a teardown has in common. -/
structure Underway (heap : Heap) (others : List Address) (teardown : Teardown) : Prop where
  accounted : teardown.Accounted others
  emptied : heap.Emptied teardown.destroyed teardown.heap
  drained : teardown.Drained

namespace Underway

variable {heap : Heap} {handle : Address} {others : List Address} {teardown next : Teardown}

theorem start (counted : heap.Counted (handle :: others)) :
    (start heap handle).Underway heap others where
  accounted := counted
  emptied := .refl heap
  drained family := by simp [Teardown.start]

theorem step (underway : teardown.Underway heap others) (step_eq : teardown.step = some next) :
    next.Underway heap others :=
  have steps := steps_of_step step_eq
  ⟨underway.accounted.steps steps, underway.emptied.steps steps, underway.drained.steps steps⟩

theorem reaches (underway : teardown.Underway heap others) (reached : Reaches teardown next) :
    next.Underway heap others := by
  induction reached with
  | refl => exact underway
  | step _ step_eq ih => exact ih.step step_eq

/-- Without a task that drains them all queues are closed. -/
theorem queues_closed (underway : teardown.Underway heap others)
    (tasks_eq : teardown.tasks = []) : teardown.queues = .closed := by
  refine Queues.eq_closed_of_get _ fun family => ?_
  have drained := underway.drained family
  rw [tasks_eq, List.count_nil] at drained
  split at drained
  · cases drained
  · rename_i closed
    exact Option.not_isSome_iff_eq_none.mp closed

/-- Once nothing is to be done nothing is owed. -/
theorem counted (underway : teardown.Underway heap others) (tasks_eq : teardown.tasks = []) :
    teardown.heap.Counted others := by
  have accounted := underway.accounted
  rw [Accounted, owed, tasks_eq, underway.queues_closed tasks_eq] at accounted
  exact accounted

end Underway

namespace Heap

variable {heap : Heap} {handle : Address} {others : List Address}

theorem underway_release (counted : heap.Counted (handle :: others)) :
    (heap.release handle).Underway heap others :=
  (Underway.start counted).reaches (reaches_finish (Teardown.start heap handle))

/-- Releasing a handle comes to an end. It destroys, each of them once, the objects that no other
handle leads to, and no others; plain recursion destroys the same ones and leaves the same heap. The
objects that are left carry the numbers of references that they still have, and both queues are
closed and empty, so that the next handle is released from a fresh start. -/
theorem release_frees_unreachable (counted : heap.Counted (handle :: others))
    (acyclic : heap.Acyclic) :
    Reaches (start heap handle) (heap.release handle) ∧
      (heap.release handle).step = none ∧
      (heap.release handle).destroyed.Nodup ∧
      (∀ address, address ∈ (heap.release handle).destroyed ↔
        heap.Live address ∧ ¬ heap.Reachable others address) ∧
      (∀ address, (heap.release handle).heap.Live address ↔ heap.Reachable others address) ∧
      (∀ address count object, (heap.release handle).heap.cell? address = some ⟨count, object⟩ →
        heap.object? address = some object ∧ 0 < count ∧
          count = (heap.release handle).heap.referenceCount others address) ∧
      (heap.release handle).queues = .closed ∧
      (∀ next, ⟨(heap.release handle).heap, (heap.release handle).queues, [.drop next], []⟩ =
        start (heap.release handle).heap next) ∧
      (heap.release handle).heap.Counted others ∧
      (heap.release handle).heap.Acyclic ∧
      (∃ destroyed after, Drops [handle] heap destroyed after) ∧
      ∀ destroyed after, Drops [handle] heap destroyed after →
        destroyed.Perm (heap.release handle).destroyed ∧ after = (heap.release handle).heap := by
  have underway := underway_release counted
  have ended := step_finish (start heap handle)
  have tasks_eq := (step_eq_none_iff _).mp ended
  have queues_eq := underway.queues_closed tasks_eq
  have counted_after := underway.counted tasks_eq
  have emptied := underway.emptied
  refine ⟨reaches_finish _, ended, emptied.nodup, emptied.mem_destroyed_iff counted_after acyclic,
    emptied.live_iff counted_after acyclic, fun address count object cell_eq => ?_, queues_eq,
    fun next => ?_, counted_after, emptied.acyclic acyclic, Drops.exists_of_counted counted,
    fun destroyed after drops => ?_⟩
  · rcases emptied.cell?_before cell_eq with ⟨before, before_eq⟩
    exact ⟨object?_of_cell? before_eq, counted_after.count_pos cell_eq,
      counted_after.count_eq cell_eq⟩
  · rw [queues_eq, start]
  · exact drops.emptied.unique emptied (drops.counted counted) counted_after acyclic

/-- Nodes of both families: the continuation of the first node has captured a node of the other
family twice, whose continuation has captured the predecessor of the first node. The producer at the
end is shared by a node that is also held from outside. -/
def crossed : Heap where
  cells :=
    [some ⟨1, .bind .immediate 5 1⟩, some ⟨1, .closure [2, 2]⟩, some ⟨2, .bind .asynchronous 3 4⟩,
      some ⟨1, .leaf .asynchronous 6⟩, some ⟨1, .closure [5]⟩, some ⟨2, .leaf .immediate 8⟩,
      some ⟨1, .closure [7]⟩, some ⟨2, .leaf .immediate 8⟩, some ⟨2, .closure []⟩]

theorem acyclic_crossed : crossed.Acyclic := by
  refine ⟨fun address => 9 - address, fun {source target cell} cell_eq target_mem => ?_⟩
  have downwards : ∀ source < crossed.cells.length, ∀ cell ∈ crossed.cell? source,
      ∀ target ∈ cell.object.references, 9 - target < 9 - source := by decide
  exact downwards source (lt_length_of_cell? cell_eq) cell cell_eq target target_mem

theorem reachable_crossed_iff (address : Nat) :
    crossed.Reachable [7] address ↔ address = 7 ∨ address = 8 := by
  constructor
  · intro reachable
    induction reachable with
    | handle held => exact .inl (List.mem_singleton.mp held)
    | reference _ cell_eq target_mem ih =>
        rcases ih with rfl | rfl <;> cases cell_eq <;> simp_all [Object.references]
  · have held : crossed.Reachable [7] 7 := .handle List.mem_cons_self
    have cell_eq : crossed.cell? 7 = some ⟨2, .leaf .immediate 8⟩ := rfl
    rintro (rfl | rfl)
    · exact held
    · exact .reference held cell_eq List.mem_cons_self

theorem release_crossed :
    crossed.Counted [0, 7] ∧ crossed.Acyclic ∧
      ∀ address : Nat, address ∈ (crossed.release 0).destroyed ↔ address < 7 := by
  have counted : crossed.Counted [0, 7] := by decide
  refine ⟨counted, acyclic_crossed, fun address => ?_⟩
  rcases release_frees_unreachable counted acyclic_crossed with ⟨_, _, _, mem_iff, _⟩
  rw [mem_iff, reachable_crossed_iff]
  constructor
  · rintro ⟨live, unreachable⟩
    rcases Option.isSome_iff_exists.mp live with ⟨cell, cell_eq⟩
    have bound : address < 9 := lt_length_of_cell? cell_eq
    omega
  · intro bound
    have live : ∀ address < 7, (crossed.cell? address).isSome := by decide
    exact ⟨live address bound, by omega⟩

end Heap

end Teardown

end Deferral

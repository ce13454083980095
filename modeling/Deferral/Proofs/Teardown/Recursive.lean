import Deferral.Proofs.Teardown.Emptied

/-!
# Dropping by plain recursion

Without a queue, the last reference to an object destroys the object and gives up all that it holds
before anything else is done. Every heap with the right counts can be dropped in this way; the
counts stay right, as the references of the destroyed object are given up in place of its handle.
-/

namespace Deferral.Teardown.Heap

/-- Some references are given up, one after the other and each with everything below it. The
destroyed objects are listed with the last one first. -/
inductive Drops : List Address → Heap → List Address → Heap → Prop
  | done (heap : Heap) : Drops [] heap [] heap
  | shared {address : Address} {addresses destroyed : List Address} {heap after : Heap}
      {cell : Cell} (cell_eq : heap.cell? address = some cell) (shared : cell.count ≠ 1)
      (rest : Drops addresses (heap.put address (some { cell with count := cell.count - 1 }))
        destroyed after) :
      Drops (address :: addresses) heap destroyed after
  | last {address : Address} {addresses inside destroyed : List Address} {heap middle after : Heap}
      {cell : Cell} (cell_eq : heap.cell? address = some cell) (last : cell.count = 1)
      (below : Drops cell.object.references (heap.put address none) inside middle)
      (rest : Drops addresses middle destroyed after) :
      Drops (address :: addresses) heap (destroyed ++ (inside ++ [address])) after

variable {heap after : Heap} {address : Address} {addresses others destroyed : List Address}
  {cell : Cell}

theorem weight_giveUp_lt (counted : heap.Counted others)
    (cell_eq : heap.cell? address = some cell) :
    (heap.put address (some { cell with count := cell.count - 1 })).weight < heap.weight := by
  have put_weight := heap.weight_put address (some { cell with count := cell.count - 1 }) cell_eq
  have positive := counted.count_pos cell_eq
  simp only [countOf] at put_weight
  omega

theorem weight_remove_lt (counted : heap.Counted others)
    (cell_eq : heap.cell? address = some cell) :
    (heap.put address none).weight < heap.weight := by
  have put_weight := heap.weight_put address none cell_eq
  have positive := counted.count_pos cell_eq
  simp only [countOf] at put_weight
  omega

namespace Drops

/-- The counts are right again once all the references have been given up. -/
theorem counted (drops : Drops addresses heap destroyed after)
    (counted : heap.Counted (addresses ++ others)) : after.Counted others := by
  induction drops generalizing others with
  | done => exact counted
  | shared cell_eq shared _ ih => exact ih (counted.giveUp cell_eq shared)
  | last cell_eq last _ _ ih_below ih_rest =>
      exact ih_rest (ih_below (counted.remove cell_eq last))

theorem emptied (drops : Drops addresses heap destroyed after) : heap.Emptied destroyed after := by
  induction drops with
  | done heap => exact .refl heap
  | shared cell_eq _ _ ih =>
      have emptied := (Emptied.put_count _ cell_eq).trans ih
      rwa [List.append_nil] at emptied
  | last cell_eq _ _ _ ih_below ih_rest =>
      exact ((Emptied.put_none cell_eq).trans ih_below).trans ih_rest

theorem weight_le (drops : Drops addresses heap destroyed after)
    (counted : heap.Counted (addresses ++ others)) : after.weight ≤ heap.weight := by
  induction drops generalizing others with
  | done => exact Nat.le_refl _
  | shared cell_eq shared _ ih =>
      exact Nat.le_trans (ih (counted.giveUp cell_eq shared))
        (Nat.le_of_lt (weight_giveUp_lt counted cell_eq))
  | last cell_eq last below _ ih_below ih_rest =>
      have removed := counted.remove cell_eq last
      exact Nat.le_trans (ih_rest (below.counted removed))
        (Nat.le_trans (ih_below removed) (Nat.le_of_lt (weight_remove_lt counted cell_eq)))

/-- Plain recursion comes to an end, as every reference that is given up makes the heap lighter. -/
theorem exists_of_counted (counted : heap.Counted (addresses ++ others)) :
    ∃ destroyed after, Drops addresses heap destroyed after := by
  -- Not on the addresses, since those that a destroyed object holds come before the others.
  induction weight_eq : heap.weight using Nat.strongRecOn generalizing heap addresses others with
  | ind weight ih =>
      subst weight_eq
      rcases addresses with _ | ⟨address, addresses⟩
      · exact ⟨_, _, .done heap⟩
      · rcases counted.exists_cell List.mem_cons_self with ⟨cell, cell_eq⟩
        by_cases last : cell.count = 1
        · have removed := counted.remove cell_eq last
          have lighter := weight_remove_lt counted cell_eq
          rcases ih _ lighter removed rfl with ⟨inside, middle, below⟩
          have middle_lighter := Nat.lt_of_le_of_lt (below.weight_le removed) lighter
          rcases ih _ middle_lighter (below.counted removed) rfl with ⟨destroyed, after, rest⟩
          exact ⟨_, _, .last cell_eq last below rest⟩
        · have given_up := counted.giveUp cell_eq last
          rcases ih _ (weight_giveUp_lt counted cell_eq) given_up rfl with ⟨destroyed, after, rest⟩
          exact ⟨_, _, .shared cell_eq last rest⟩

end Drops

end Deferral.Teardown.Heap

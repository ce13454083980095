import Deferral.Proofs.Teardown.Counting
import Mathlib.Data.Finset.Lattice.Fold
import Mathlib.Data.List.Perm.Basic

/-!
# Heaps emptied of some objects

Giving up references destroys some objects and leaves the others as they are, but for their counts.
When the counts of what is left are right again, nothing was left to choose: the destroyed objects
are those that no handle leads to any more, and the remaining heap is determined.
-/

namespace Deferral.Teardown.Heap

variable {heap middle after after' : Heap} {handles : List Address} {address other : Address}
  {cell : Cell} {destroyed destroyed' earlier later : List Address}

/-- What is left of a heap when some of its objects, each of them once, are destroyed. -/
structure Emptied (heap : Heap) (destroyed : List Address) (after : Heap) : Prop where
  object?_eq : ∀ address, after.object? address =
    if address ∈ destroyed then none else heap.object? address
  was_live : ∀ address ∈ destroyed, heap.Live address
  nodup : destroyed.Nodup
  length_eq : after.cells.length = heap.cells.length

namespace Emptied

theorem of_object? (objects : ∀ address, after.object? address = heap.object? address)
    (length_eq : after.cells.length = heap.cells.length) : heap.Emptied [] after := by
  refine ⟨fun address => ?_, fun _ mem => ?_, List.nodup_nil, length_eq⟩
  · rw [if_neg List.not_mem_nil, objects]
  · cases mem

protected theorem refl (heap : Heap) : heap.Emptied [] heap :=
  .of_object? (fun _ => rfl) rfl

/-- Giving up a reference that is not the last one destroys nothing. -/
theorem put_count (count : Nat) (cell_eq : heap.cell? address = some cell) :
    heap.Emptied [] (heap.put address (some { cell with count })) :=
  .of_object? (object?_put_count count cell_eq) (length_put _ _ _)

theorem put_none (cell_eq : heap.cell? address = some cell) :
    heap.Emptied [address] (heap.put address none) := by
  refine ⟨fun other => ?_, fun other mem => ?_, List.nodup_singleton _, length_put _ _ _⟩
  · simp only [object?_put_none, List.mem_singleton]
  · obtain rfl := List.mem_singleton.mp mem
    rw [Live, cell_eq, Option.isSome_some]

theorem detach (references : List Address) (heap : Heap) :
    heap.Emptied [] (heap.detach references).2 :=
  .of_object? (object?_detach references heap) (length_detach references heap)

theorem not_live (emptied : heap.Emptied destroyed after) (mem : address ∈ destroyed) :
    ¬ after.Live address := by
  rw [live_iff_object?, emptied.object?_eq, if_pos mem]
  simp

/-- An object that is left was there, and was not destroyed. -/
theorem of_live (emptied : heap.Emptied destroyed after) (live : after.Live address) :
    address ∉ destroyed ∧ heap.Live address := by
  have fresh : address ∉ destroyed := fun mem => emptied.not_live mem live
  rw [live_iff_object?, emptied.object?_eq, if_neg fresh, ← live_iff_object?] at live
  exact ⟨fresh, live⟩

/-- An object that was destroyed later was not destroyed earlier. -/
protected theorem trans (first : heap.Emptied earlier middle)
    (second : middle.Emptied later after) : heap.Emptied (later ++ earlier) after := by
  have fresh (address : Address) (mem : address ∈ later) :
      address ∉ earlier ∧ heap.Live address :=
    first.of_live (second.was_live address mem)
  refine ⟨fun address => ?_, fun address mem => ?_, ?_, second.length_eq.trans first.length_eq⟩
  · rw [second.object?_eq, first.object?_eq]
    by_cases mem_later : address ∈ later <;> by_cases mem_earlier : address ∈ earlier <;>
      simp [mem_later, mem_earlier]
  · rcases List.mem_append.mp mem with mem_later | mem_earlier
    · exact (fresh address mem_later).2
    · exact first.was_live address mem_earlier
  · refine List.nodup_append.mpr ⟨second.nodup, first.nodup, ?_⟩
    rintro address mem_later _ mem_earlier rfl
    exact (fresh address mem_later).1 mem_earlier

theorem cell?_before (emptied : heap.Emptied destroyed after)
    (cell_eq : after.cell? address = some cell) :
    ∃ count, heap.cell? address = some ⟨count, cell.object⟩ := by
  have live : after.Live address := by rw [Live, cell_eq, Option.isSome_some]
  have object_eq := emptied.object?_eq address
  rw [if_neg (emptied.of_live live).1, object?_of_cell? cell_eq] at object_eq
  exact object?_eq_some_iff.mp object_eq.symm

theorem cell?_after (emptied : heap.Emptied destroyed after) (live : after.Live address)
    (cell_eq : heap.cell? address = some cell) :
    ∃ count, after.cell? address = some ⟨count, cell.object⟩ := by
  have object_eq := emptied.object?_eq address
  rw [if_neg (emptied.of_live live).1, object?_of_cell? cell_eq] at object_eq
  exact object?_eq_some_iff.mp object_eq

theorem acyclic (emptied : heap.Emptied destroyed after) (acyclic : heap.Acyclic) :
    after.Acyclic := by
  rcases acyclic with ⟨height, downwards⟩
  refine ⟨height, fun cell_eq target_mem => ?_⟩
  rcases emptied.cell?_before cell_eq with ⟨count, before_eq⟩
  exact downwards before_eq target_mem

end Emptied

section Garbage

/-- Whatever can be come by is there. -/
theorem Counted.live_of_reachable (counted : heap.Counted handles)
    (reachable : heap.Reachable handles address) : heap.Live address := by
  cases reachable with
  | handle held => exact counted.live (referenceCount_pos_iff.mpr (.inl held))
  | reference _ cell_eq target_mem =>
      exact counted.live (referenceCount_pos_iff.mpr (.inr ⟨_, _, cell_eq, target_mem⟩))

/-- There is no garbage: going up from an object, from a reference to its holder, ends at a handle.
-/
theorem Counted.reachable_of_live (counted : heap.Counted handles) (acyclic : heap.Acyclic)
    (live : heap.Live address) : heap.Reachable handles address := by
  rcases acyclic with ⟨height, downwards⟩
  let top := (Finset.range heap.cells.length).sup height
  have below_top {address : Address} {cell : Cell} (cell_eq : heap.cell? address = some cell) :
      height address ≤ top :=
    Finset.le_sup (Finset.mem_range.mpr (lt_length_of_cell? cell_eq))
  -- Whatever holds an object stands higher, and nothing stands above the top.
  induction distance : top - height address using Nat.strongRecOn generalizing address with
  | ind distance ih =>
      rcases Option.isSome_iff_exists.mp live with ⟨cell, cell_eq⟩
      have referenced := counted.count_pos cell_eq
      rw [counted.count_eq cell_eq, referenceCount_pos_iff] at referenced
      rcases referenced with held | ⟨source, holder, holder_eq, mem⟩
      · exact .handle held
      · have higher := downwards holder_eq mem
        have bounded := below_top holder_eq
        have source_live : heap.Live source := by rw [Live, holder_eq, Option.isSome_some]
        have source_reachable := ih (top - height source) (by omega) source_live rfl
        exact .reference source_reachable holder_eq mem

theorem Counted.live_iff_reachable (counted : heap.Counted handles) (acyclic : heap.Acyclic)
    (address : Address) : heap.Live address ↔ heap.Reachable handles address :=
  ⟨counted.reachable_of_live acyclic, counted.live_of_reachable⟩

end Garbage

namespace Emptied

/-- Destroying garbage changes nothing about what can be come by. -/
theorem reachable_iff (emptied : heap.Emptied destroyed after) (counted : after.Counted handles)
    (address : Address) : after.Reachable handles address ↔ heap.Reachable handles address := by
  constructor
  · intro reachable
    induction reachable with
    | handle held => exact .handle held
    | reference _ cell_eq target_mem ih =>
        rcases emptied.cell?_before cell_eq with ⟨count, before_eq⟩
        exact .reference ih before_eq target_mem
  · intro reachable
    induction reachable with
    | handle held => exact .handle held
    | reference _ cell_eq target_mem ih =>
        have live := counted.live_of_reachable ih
        rcases emptied.cell?_after live cell_eq with ⟨count, after_eq⟩
        exact .reference ih after_eq target_mem

variable (emptied : heap.Emptied destroyed after) (counted : after.Counted handles)
  (acyclic : heap.Acyclic)

include emptied counted acyclic

/-- The objects that are left are those that a handle leads to. -/
theorem live_iff (address : Address) : after.Live address ↔ heap.Reachable handles address := by
  rw [counted.live_iff_reachable (emptied.acyclic acyclic), emptied.reachable_iff counted]

/-- The destroyed objects are those that no handle leads to. -/
theorem mem_destroyed_iff (address : Address) :
    address ∈ destroyed ↔ heap.Live address ∧ ¬ heap.Reachable handles address := by
  rw [← emptied.live_iff counted acyclic]
  constructor
  · intro mem
    exact ⟨emptied.was_live address mem, emptied.not_live mem⟩
  · rintro ⟨live, gone⟩
    by_contra fresh
    apply gone
    rwa [live_iff_object?, emptied.object?_eq, if_neg fresh, ← live_iff_object?]

end Emptied

section Unique

/-- Only objects hold references. -/
theorem occurrencesIn_congr {cells cells' : List (Option Cell)}
    (same : cells.map (·.map Cell.object) = cells'.map (·.map Cell.object)) :
    occurrencesIn address cells = occurrencesIn address cells' := by
  induction cells generalizing cells' with
  | nil =>
      obtain rfl := List.map_eq_nil_iff.mp same.symm
      rfl
  | cons content cells ih =>
      rcases cells' with _ | ⟨content', cells'⟩
      · cases same
      · rw [List.map_cons, List.map_cons, List.cons.injEq] at same
        have references_eq : referencesOf content = referencesOf content' := by
          cases content <;> cases content' <;> simp_all [referencesOf]
        rw [occurrencesIn_cons, occurrencesIn_cons, references_eq, ih same.2]

theorem map_object_eq (objects : ∀ address, after.object? address = after'.object? address)
    (length_eq : after.cells.length = after'.cells.length) :
    after.cells.map (·.map Cell.object) = after'.cells.map (·.map Cell.object) := by
  refine List.ext_getElem (by simpa using length_eq) fun address bound bound' => ?_
  have object_eq := objects address
  rw [List.length_map] at bound bound'
  simpa [object?, cell?, bound, bound'] using object_eq

/-- A heap with the right counts is known from its objects. -/
theorem Counted.eq_of_objects (counted : after.Counted handles) (counted' : after'.Counted handles)
    (objects : ∀ address, after.object? address = after'.object? address)
    (length_eq : after.cells.length = after'.cells.length) : after = after' := by
  have same := map_object_eq objects length_eq
  have cell?_eq (address : Address) : after.cell? address = after'.cell? address := by
    have object_eq := objects address
    rcases found : after.cell? address with _ | ⟨count, object⟩
    · rw [object?, found, object?, Option.map_none] at object_eq
      rw [Option.map_eq_none_iff.mp object_eq.symm]
    · rw [object?_of_cell? found] at object_eq
      rcases object?_eq_some_iff.mp object_eq.symm with ⟨count', found'⟩
      have count_eq := counted.count_eq found
      have count'_eq := counted'.count_eq found'
      rw [referenceCount, occurrencesIn_congr same, ← referenceCount] at count_eq
      simp only at count_eq count'_eq
      rw [found', count_eq, count'_eq]
  suffices after.cells = after'.cells by
    cases after
    cases after'
    rw [mk.injEq]
    exact this
  refine List.ext_getElem length_eq fun address bound bound' => ?_
  simpa [cell?, bound, bound'] using cell?_eq address

/-- However the objects are destroyed, it is the same ones and the same heap is left. -/
theorem Emptied.unique (emptied : heap.Emptied destroyed after)
    (emptied' : heap.Emptied destroyed' after') (counted : after.Counted handles)
    (counted' : after'.Counted handles) (acyclic : heap.Acyclic) :
    destroyed.Perm destroyed' ∧ after = after' := by
  have mem_iff (address : Address) : address ∈ destroyed ↔ address ∈ destroyed' := by
    rw [emptied.mem_destroyed_iff counted acyclic, emptied'.mem_destroyed_iff counted' acyclic]
  refine ⟨(List.perm_ext_iff_of_nodup emptied.nodup emptied'.nodup).mpr mem_iff,
    counted.eq_of_objects counted' (fun address => ?_)
      (emptied.length_eq.trans emptied'.length_eq.symm)⟩
  rw [emptied.object?_eq, emptied'.object?_eq, if_congr (mem_iff address) rfl rfl]

end Unique

end Deferral.Teardown.Heap

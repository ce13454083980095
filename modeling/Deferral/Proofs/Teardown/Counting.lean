import Deferral.Teardown.Release
import Mathlib.Tactic.ByContra

/-!
# Counts while references are given up

While handles are released the counts of a heap stay right, if the references that are still to be
given up are counted as handles. A reference to a shared object is given up by lowering a count. The
last reference to an object is given up by removing the object, whose own references are then to be
given up. Parting a node from its children gives up some of its references and keeps the others.
-/

namespace Deferral.Teardown.Heap

variable {heap : Heap} {handles handles' references : List Address} {address other : Address}
  {cell : Cell} {content : Option Cell}

/-- What an object holds, without its count. -/
def object? (heap : Heap) (address : Address) : Option Object :=
  (heap.cell? address).map Cell.object

theorem object?_of_cell? (cell_eq : heap.cell? address = some cell) :
    heap.object? address = some cell.object := by
  rw [object?, cell_eq, Option.map_some]

theorem object?_eq_some_iff {object : Object} :
    heap.object? address = some object ↔ ∃ count, heap.cell? address = some ⟨count, object⟩ := by
  rw [object?, Option.map_eq_some_iff]
  constructor
  · rintro ⟨⟨count, _⟩, cell_eq, rfl⟩
    exact ⟨count, cell_eq⟩
  · rintro ⟨count, cell_eq⟩
    exact ⟨_, cell_eq, rfl⟩

theorem live_iff_object? : heap.Live address ↔ (heap.object? address).isSome := by
  rw [object?, Option.isSome_map, Live]

theorem lt_length_of_cell? (cell_eq : heap.cell? address = some cell) :
    address < heap.cells.length := by
  by_contra absent
  simp [cell?, List.getElem?_eq_none (Nat.not_lt.mp absent)] at cell_eq

section Put

theorem cell?_put_self (content : Option Cell) (cell_eq : heap.cell? address = some cell) :
    (heap.put address content).cell? address = content := by
  simp [cell?, put, lt_length_of_cell? cell_eq]

theorem cell?_put_of_ne (content : Option Cell) (different : other ≠ address) :
    (heap.put address content).cell? other = heap.cell? other := by
  simp [cell?, put, List.getElem?_set_ne different.symm]

theorem cell?_put_none (heap : Heap) (address : Address) :
    (heap.put address none).cell? address = none := by
  simp only [cell?, put, List.getElem?_set_self']
  cases heap.cells[address]? <;> rfl

theorem length_put (heap : Heap) (address : Address) (content : Option Cell) :
    (heap.put address content).cells.length = heap.cells.length :=
  List.length_set

/-- Changing a count changes no object. -/
theorem object?_put_count (count : Nat) (cell_eq : heap.cell? address = some cell)
    (other : Address) :
    (heap.put address (some { cell with count })).object? other = heap.object? other := by
  by_cases same : other = address
  · subst same
    rw [object?_of_cell? cell_eq, object?_of_cell? (cell?_put_self _ cell_eq)]
  · rw [object?, cell?_put_of_ne _ same, object?]

theorem object?_put_none (heap : Heap) (address other : Address) :
    (heap.put address none).object? other =
      if other = address then none else heap.object? other := by
  by_cases same : other = address
  · subst same
    rw [object?, cell?_put_none, if_pos rfl, Option.map_none]
  · rw [object?, cell?_put_of_ne _ same, if_neg same, object?]

end Put

section Occurrences

/-- The references that the object in a cell holds, and none where there is no cell. -/
def referencesOf : Option Cell → List Address
  | none => []
  | some cell => cell.object.references

theorem occurrencesIn_cons (content : Option Cell) (cells : List (Option Cell)) :
    occurrencesIn other (content :: cells) =
      (referencesOf content).count other + occurrencesIn other cells := by
  cases content with
  | none => simp [occurrencesIn, referencesOf]
  | some cell => rfl

theorem occurrencesIn_set (other : Address) (content : Option Cell) (cells : List (Option Cell))
    (cell_eq : cells[address]?.join = some cell) :
    occurrencesIn other (cells.set address content) + cell.object.references.count other =
      occurrencesIn other cells + (referencesOf content).count other := by
  induction cells generalizing address with
  | nil => simp at cell_eq
  | cons first cells ih =>
      cases address with
      | zero =>
          simp only [List.getElem?_cons_zero, Option.join_some] at cell_eq
          subst cell_eq
          simp only [List.set_cons_zero, occurrencesIn_cons, referencesOf]
          omega
      | succ address =>
          simp only [List.getElem?_cons_succ] at cell_eq
          have rest := ih cell_eq
          simp only [List.set_cons_succ, occurrencesIn_cons]
          omega

/-- An address occurs among the references of some places when one of these holds it. -/
theorem occurrencesIn_pos_iff (cells : List (Option Cell)) :
    0 < occurrencesIn other cells ↔
      ∃ (source : Address) (cell : Cell),
        cells[source]?.join = some cell ∧ other ∈ cell.object.references := by
  induction cells with
  | nil => simp [occurrencesIn]
  | cons first cells ih =>
      rw [occurrencesIn_cons, Nat.add_pos_iff_pos_or_pos, ih, List.count_pos_iff]
      constructor
      · rintro (mem | ⟨source, cell, cell_eq, mem⟩)
        · cases first with
          | none => cases mem
          | some cell => exact ⟨0, cell, rfl, mem⟩
        · exact ⟨source + 1, cell, cell_eq, mem⟩
      · rintro ⟨source, cell, cell_eq, mem⟩
        cases source with
        | zero =>
            simp only [List.getElem?_cons_zero, Option.join_some] at cell_eq
            subst cell_eq
            exact .inl mem
        | succ source => exact .inr ⟨source, cell, cell_eq, mem⟩

theorem referenceCount_pos_iff :
    0 < heap.referenceCount handles other ↔
      other ∈ handles ∨
        ∃ source cell, heap.cell? source = some cell ∧ other ∈ cell.object.references := by
  rw [referenceCount, Nat.add_pos_iff_pos_or_pos, occurrencesIn_pos_iff, List.count_pos_iff]
  rfl

/-- It is enough to look at the places of a heap and at the references that there are. -/
theorem counted_iff :
    heap.Counted handles ↔
      (∀ address < heap.cells.length, ∀ cell ∈ heap.cell? address,
        cell.count = heap.referenceCount handles address ∧ 0 < cell.count) ∧
      (∀ address ∈ handles, (heap.cell? address).isSome) ∧
      ∀ source < heap.cells.length, ∀ cell ∈ heap.cell? source,
        ∀ address ∈ cell.object.references, (heap.cell? address).isSome := by
  constructor
  · intro counted
    refine ⟨fun address _ cell cell_eq => ⟨counted.count_eq cell_eq, counted.count_pos cell_eq⟩,
      fun address held => counted.live (referenceCount_pos_iff.mpr (.inl held)),
      fun source _ cell cell_eq address mem => ?_⟩
    exact counted.live (referenceCount_pos_iff.mpr (.inr ⟨source, cell, cell_eq, mem⟩))
  · rintro ⟨counts, handles_live, references_live⟩
    refine ⟨fun cell_eq => (counts _ (lt_length_of_cell? cell_eq) _ cell_eq).1,
      fun cell_eq => (counts _ (lt_length_of_cell? cell_eq) _ cell_eq).2, fun referenced => ?_⟩
    rcases referenceCount_pos_iff.mp referenced with held | ⟨source, cell, cell_eq, mem⟩
    · exact handles_live _ held
    · exact references_live _ (lt_length_of_cell? cell_eq) _ cell_eq _ mem

instance (heap : Heap) (handles : List Address) : Decidable (heap.Counted handles) :=
  decidable_of_iff _ counted_iff.symm

theorem referenceCount_put (content : Option Cell) (cell_eq : heap.cell? address = some cell)
    (handles : List Address) (other : Address) :
    (heap.put address content).referenceCount handles other +
        cell.object.references.count other =
      heap.referenceCount handles other + (referencesOf content).count other := by
  have occurrences := occurrencesIn_set other content heap.cells cell_eq
  simp only [referenceCount, put]
  omega

end Occurrences

namespace Counted

/-- Only the number of handles to each object matters. -/
theorem congr (counted : heap.Counted handles)
    (same : ∀ address, handles.count address = handles'.count address) :
    heap.Counted handles' := by
  have referenceCount_eq (address : Address) :
      heap.referenceCount handles address = heap.referenceCount handles' address := by
    rw [referenceCount, referenceCount, same]
  refine ⟨fun cell_eq => ?_, counted.count_pos, fun referenced => ?_⟩
  · rw [← referenceCount_eq]
    exact counted.count_eq cell_eq
  · rw [← referenceCount_eq] at referenced
    exact counted.live referenced

theorem exists_cell (counted : heap.Counted handles) (held : address ∈ handles) :
    ∃ cell, heap.cell? address = some cell := by
  have live := counted.live (referenceCount_pos_iff.mpr (.inl held))
  exact Option.isSome_iff_exists.mp live

theorem referenceCount_cons (heap : Heap) (handles : List Address) (address other : Address) :
    heap.referenceCount (address :: handles) other =
      heap.referenceCount handles other + if other = address then 1 else 0 := by
  simp only [referenceCount, List.count_cons, beq_iff_eq, eq_comm (a := address)]
  omega

/-- A reference to an object that has others is given up by lowering its count. -/
theorem giveUp (counted : heap.Counted (address :: handles))
    (cell_eq : heap.cell? address = some cell) (shared : cell.count ≠ 1) :
    (heap.put address (some { cell with count := cell.count - 1 })).Counted handles := by
  have references_eq (other : Address) :
      (heap.put address (some { cell with count := cell.count - 1 })).referenceCount handles other =
        heap.referenceCount handles other := by
    have put_eq := referenceCount_put (some { cell with count := cell.count - 1 }) cell_eq handles
      other
    simp only [referencesOf] at put_eq
    omega
  have count_eq := counted.count_eq cell_eq
  rw [referenceCount_cons, if_pos rfl] at count_eq
  refine ⟨fun {other found} found_eq => ?_, fun {other found} found_eq => ?_,
    fun {other} referenced => ?_⟩
  · rw [references_eq]
    by_cases same : other = address
    · subst same
      rw [cell?_put_self _ cell_eq] at found_eq
      cases found_eq
      simp only
      omega
    · rw [cell?_put_of_ne _ same] at found_eq
      have found_count := counted.count_eq found_eq
      rwa [referenceCount_cons, if_neg same] at found_count
  · by_cases same : other = address
    · subst same
      rw [cell?_put_self _ cell_eq] at found_eq
      cases found_eq
      have positive := counted.count_pos cell_eq
      simp only
      omega
    · rw [cell?_put_of_ne _ same] at found_eq
      exact counted.count_pos found_eq
  · rw [references_eq] at referenced
    rw [live_iff_object?, object?_put_count _ cell_eq, ← live_iff_object?]
    apply counted.live
    rw [referenceCount_cons]
    omega

/-- The last reference to an object is given up by removing it; its own references are left over. -/
theorem remove (counted : heap.Counted (address :: handles))
    (cell_eq : heap.cell? address = some cell) (last : cell.count = 1) :
    (heap.put address none).Counted (cell.object.references ++ handles) := by
  have references_eq (other : Address) :
      (heap.put address none).referenceCount (cell.object.references ++ handles) other =
        heap.referenceCount handles other := by
    have put_eq := referenceCount_put none cell_eq handles other
    simp only [referencesOf, List.count_nil, Nat.add_zero, referenceCount] at put_eq
    simp only [referenceCount, List.count_append]
    omega
  have count_eq := counted.count_eq cell_eq
  rw [referenceCount_cons, if_pos rfl] at count_eq
  refine ⟨fun {other found} found_eq => ?_, fun {other found} found_eq => ?_,
    fun {other} referenced => ?_⟩
  · rw [references_eq]
    by_cases same : other = address
    · subst same
      simp [cell?_put_none] at found_eq
    · rw [cell?_put_of_ne _ same] at found_eq
      have found_count := counted.count_eq found_eq
      rwa [referenceCount_cons, if_neg same] at found_count
  · by_cases same : other = address
    · subst same
      simp [cell?_put_none] at found_eq
    · rw [cell?_put_of_ne _ same] at found_eq
      exact counted.count_pos found_eq
  · rw [references_eq] at referenced
    by_cases same : other = address
    · subst same
      omega
    · rw [live_iff_object?, object?_put_none, if_neg same, ← live_iff_object?]
      apply counted.live
      rw [referenceCount_cons]
      omega

/-- Parting a holder from its references keeps the last ones and gives up the others. -/
theorem detach (counted : heap.Counted (references ++ handles)) :
    (heap.detach references).2.Counted ((heap.detach references).1 ++ handles) := by
  induction references generalizing heap handles with
  | nil => exact counted
  | cons address references ih =>
      rw [List.cons_append] at counted
      rcases counted.exists_cell List.mem_cons_self with ⟨cell, cell_eq⟩
      rw [Heap.detach, cell_eq]
      by_cases last : cell.count = 1
      · simp only [last, ↓reduceIte]
        have kept : heap.Counted (references ++ address :: handles) := by
          refine counted.congr fun other => ?_
          simp only [List.count_append, List.count_cons]
          omega
        refine (ih kept).congr fun other => ?_
        simp only [List.count_append, List.count_cons]
        omega
      · simp only [last, ↓reduceIte]
        exact ih (counted.giveUp cell_eq last)

end Counted

/-- Parting a holder from its references changes counts only. -/
theorem object?_detach (references : List Address) (heap : Heap) (other : Address) :
    (heap.detach references).2.object? other = heap.object? other := by
  fun_induction detach references heap with
  | case1 => rfl
  | case2 _ _ _ _ ih => exact ih
  | case3 _ _ _ _ _ _ _ _ detached ih =>
      rw [detached] at ih
      exact ih
  | case4 _ _ _ _ cell_eq _ ih => rw [ih, object?_put_count _ cell_eq]

theorem length_detach (references : List Address) (heap : Heap) :
    (heap.detach references).2.cells.length = heap.cells.length := by
  fun_induction detach references heap with
  | case1 => rfl
  | case2 _ _ _ _ ih => exact ih
  | case3 _ _ _ _ _ _ _ _ detached ih =>
      rw [detached] at ih
      exact ih
  | case4 _ _ _ _ _ _ ih => rw [ih, length_put]

end Deferral.Teardown.Heap

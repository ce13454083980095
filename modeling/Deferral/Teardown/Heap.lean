/-!
# Heaps of counted objects

In memory a graph is a web of objects that are shared and counted. A node holds its producer, or its
predecessor and its continuation; producers and continuations are closures, which hold whatever they
captured, further graphs included. Each object carries the number of references to it and is
destroyed with the last of them.

`Heap.Reachable`, `Heap.Counted` and `Heap.Acyclic` say what a heap has to look like, without
mentioning how anything is destroyed.
-/

namespace Deferral.Teardown

/-- The two families of nodes: those whose leaves finish at once and those whose leaves may wait. -/
inductive Family where
  | immediate
  | asynchronous
  deriving Repr, DecidableEq

/-- The place of an object. -/
abbrev Address := Nat

/-- A node of a graph, or a closure with the handles that it captured. -/
inductive Object where
  | leaf (family : Family) (producer : Address)
  | bind (family : Family) (predecessor continuation : Address)
  | closure (captures : List Address)
  deriving Repr, DecidableEq

namespace Object

/-- The references of an object, one entry for each. -/
def references : Object → List Address
  | .leaf _ producer => [producer]
  | .bind _ predecessor continuation => [predecessor, continuation]
  | .closure captures => captures

/-- The family of a node; a closure has none. -/
def family? : Object → Option Family
  | .leaf family _ | .bind family _ _ => some family
  | .closure _ => none

end Object

/-- An object and the number of references to it. -/
structure Cell where
  count : Nat
  object : Object
  deriving Repr, DecidableEq

/-- The objects by address. A place without a cell is free. -/
structure Heap where
  cells : List (Option Cell)
  deriving Repr, DecidableEq

namespace Heap

/-- The object at an address with its count, while it has not been destroyed. -/
def cell? (heap : Heap) (address : Address) : Option Cell :=
  heap.cells[address]?.join

/-- Replace what is at an address. -/
def put (address : Address) (content : Option Cell) (heap : Heap) : Heap where
  cells := heap.cells.set address content

/-- The number of references to the object of a cell. -/
def countOf : Option Cell → Nat
  | none => 0
  | some cell => cell.count

/-- The number of all references to the objects of the given cells. -/
def weightOf : List (Option Cell) → Nat
  | [] => 0
  | content :: cells => countOf content + weightOf cells

/-- The sum of all counts. It falls with every reference that is given up. -/
def weight (heap : Heap) : Nat := weightOf heap.cells

/-- How often an address occurs among the references of some places. -/
def occurrencesIn (address : Address) : List (Option Cell) → Nat
  | [] => 0
  | none :: cells => occurrencesIn address cells
  | some cell :: cells => cell.object.references.count address + occurrencesIn address cells

/-- The number of references to an address, from the objects of a heap and from outside. -/
def referenceCount (heap : Heap) (handles : List Address) (address : Address) : Nat :=
  handles.count address + occurrencesIn address heap.cells

/-- There is an object at the address. -/
def Live (heap : Heap) (address : Address) : Prop := (heap.cell? address).isSome

/-- An address can be come by, starting from the handles held outside. -/
inductive Reachable (heap : Heap) (handles : List Address) : Address → Prop
  | handle {address : Address} (held : address ∈ handles) : Reachable heap handles address
  | reference {source target : Address} {cell : Cell}
      (reached : Reachable heap handles source) (cell_eq : heap.cell? source = some cell)
      (target_mem : target ∈ cell.object.references) : Reachable heap handles target

/-- Every object has at least one reference and carries their number, and no reference leads to a
free place. -/
structure Counted (heap : Heap) (handles : List Address) : Prop where
  count_eq {address : Address} {cell : Cell} (cell_eq : heap.cell? address = some cell) :
    cell.count = heap.referenceCount handles address
  count_pos {address : Address} {cell : Cell} (cell_eq : heap.cell? address = some cell) :
    0 < cell.count
  live {address : Address} (referenced : 0 < heap.referenceCount handles address) :
    heap.Live address

/-- References only ever lead downwards. -/
def Acyclic (heap : Heap) : Prop :=
  ∃ height : Address → Nat, ∀ {source target : Address} {cell : Cell},
    heap.cell? source = some cell → target ∈ cell.object.references → height target < height source

theorem weightOf_set (cells : List (Option Cell)) (address : Address) (content : Option Cell)
    {cell : Cell} (cell_eq : cells[address]?.join = some cell) :
    weightOf (cells.set address content) + cell.count = weightOf cells + countOf content := by
  induction cells generalizing address with
  | nil => simp at cell_eq
  | cons first cells ih =>
      cases address with
      | zero =>
          simp only [List.getElem?_cons_zero, Option.join_some] at cell_eq
          subst cell_eq
          simp only [List.set_cons_zero, weightOf, countOf]
          omega
      | succ address =>
          simp only [List.getElem?_cons_succ] at cell_eq
          have rest := ih address cell_eq
          simp only [List.set_cons_succ, weightOf]
          omega

theorem weight_put (heap : Heap) (address : Address) (content : Option Cell) {cell : Cell}
    (cell_eq : heap.cell? address = some cell) :
    (heap.put address content).weight + cell.count = heap.weight + countOf content :=
  weightOf_set heap.cells address content cell_eq

end Heap

end Deferral.Teardown

import Deferral.Call

/-!
# Pending continuations

The continuations that wait while a run is under way: the one that was pushed last is applied first.
The stack also remembers the largest number of continuations that ever waited at once, which popping
does not lower. The number that wait now is kept as well, so that pushing takes the same time
however many there are.

Room may be taken for a number of continuations before the first one is pushed. More room is taken
when it is needed, so what was taken shows in no answer; but it must be possible to ask for it.
-/

namespace Deferral

/-- A stack with a high-water mark. -/
structure Pending (κ : Type) where
  /-- The waiting continuations, the next one to be applied first. -/
  waiting : List κ
  depth : Nat
  peak : Nat

namespace Pending

variable {κ : Type}

/-- Nothing waits, and nothing ever did. -/
def empty : Pending κ where
  waiting := []
  depth := 0
  peak := 0

/-- An empty stack, after room was taken for a number of continuations of a size in bytes. -/
def withCapacity {σ : Type} (bytes expected : Nat) : Call σ (Pending κ) := do
  Call.reserve bytes expected
  return empty

/-- Let one more continuation wait. -/
def push (pending : Pending κ) (continuation : κ) : Pending κ where
  waiting := continuation :: pending.waiting
  depth := pending.depth + 1
  peak := max pending.peak (pending.depth + 1)

/-- The next continuation to apply, with what waits below it. -/
def pop? (pending : Pending κ) : Option (κ × Pending κ) :=
  match pending.waiting with
  | [] => none
  | continuation :: waiting =>
    some (continuation, { pending with waiting, depth := pending.depth - 1 })

/-- The number that is kept is the number of continuations. -/
def Counted (pending : Pending κ) : Prop := pending.depth = pending.waiting.length

theorem withCapacity_of_le {σ : Type} {bytes expected : Nat} (le : bytes * expected ≤ mostBytes) :
    (withCapacity bytes expected : Call σ (Pending κ)) = pure empty := by
  rw [withCapacity, Call.reserve_of_le le, pure_bind]

theorem withCapacity_of_lt {σ : Type} {bytes expected : Nat} (lt : mostBytes < bytes * expected) :
    (withCapacity bytes expected : Call σ (Pending κ)) = Call.panic "capacity overflow" := by
  rw [withCapacity, Call.reserve_of_lt lt]
  rfl

@[simp]
theorem waiting_empty : (empty : Pending κ).waiting = [] := rfl

@[simp]
theorem depth_empty : (empty : Pending κ).depth = 0 := rfl

@[simp]
theorem peak_empty : (empty : Pending κ).peak = 0 := rfl

theorem counted_empty : (empty : Pending κ).Counted := rfl

@[simp]
theorem waiting_push (pending : Pending κ) (continuation : κ) :
    (pending.push continuation).waiting = continuation :: pending.waiting := rfl

@[simp]
theorem depth_push (pending : Pending κ) (continuation : κ) :
    (pending.push continuation).depth = pending.depth + 1 := rfl

@[simp]
theorem peak_push (pending : Pending κ) (continuation : κ) :
    (pending.push continuation).peak = max pending.peak (pending.depth + 1) := rfl

theorem Counted.push {pending : Pending κ} (counted : pending.Counted) (continuation : κ) :
    (pending.push continuation).Counted := by
  simp [Counted, counted.symm]

/-- Popping gives back what was pushed, and leaves the stack as it was but for the mark. -/
theorem pop?_push (pending : Pending κ) (continuation : κ) :
    (pending.push continuation).pop? =
      some (continuation, { pending with peak := max pending.peak (pending.depth + 1) }) := rfl

theorem pop?_eq_none_iff (pending : Pending κ) : pending.pop? = none ↔ pending.waiting = [] := by
  unfold pop?
  split <;> simp_all

theorem Counted.pop? {pending rest : Pending κ} {continuation : κ} (counted : pending.Counted)
    (popped : pending.pop? = some (continuation, rest)) : rest.Counted := by
  unfold Pending.pop? at popped
  split at popped
  · simp at popped
  · rename_i waiting_eq
    simp only [Option.some.injEq, Prod.mk.injEq] at popped
    obtain ⟨rfl, rfl⟩ := popped
    simp_all [Counted]

end Pending

end Deferral

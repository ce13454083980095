import Deferral.Call
import Mathlib.Logic.Basic
import Mathlib.Tactic.ByContra

/-!
# Sequencing and recursion of calls

A call has at most one answer in a world, so two calls are equal when each has all the answers of
the other. `Call.Below` is one half of that, and it is how the loops of the library are compared: a
loop is a least fixed point, so what every answer of an approximation has is had by every answer of
the loop itself. `Call.answers_of_chain` is that step, once for all loops.
-/

namespace Deferral.Call

variable {σ α β ι : Type}

theorem bind_of_ok {call : Call σ α} {next : α → Call σ β} {before between : σ} {value : α}
    (called : call before = some (.ok value, between)) :
    (call >>= next) before = next value between := by
  simp [bind_apply, called]

theorem bind_of_error {call : Call σ α} {next : α → Call σ β} {before after : σ} {reason : Panic}
    (called : call before = some (.error reason, after)) :
    (call >>= next) before = some (.error reason, after) := by
  simp [bind_apply, called]

theorem bind_of_none {call : Call σ α} {next : α → Call σ β} {before : σ}
    (called : call before = none) : (call >>= next) before = none := by
  simp [bind_apply, called]

/-- How a sequence goes on with the answer of its first call. -/
def goOn (next : α → Call σ β) : Except Panic α × σ → Option (Except Panic β × σ)
  | (.ok value, between) => next value between
  | (.error reason, after) => some (.error reason, after)

theorem bind_eq_some_iff {call : Call σ α} {next : α → Call σ β} {before after : σ}
    {ending : Except Panic β} :
    (call >>= next) before = some (ending, after) ↔
      (∃ reason, call before = some (.error reason, after) ∧ ending = .error reason) ∨
        ∃ value between, call before = some (.ok value, between) ∧
          next value between = some (ending, after) := by
  rw [bind_apply]
  rcases call before with _ | ⟨_ | value, between⟩
  · simp
  · simp only [Option.bind_some, Option.some.injEq, Prod.mk.injEq, Except.error.injEq,
      reduceCtorEq, false_and, exists_false, or_false]
    constructor
    · rintro ⟨rfl, rfl⟩
      exact ⟨_, ⟨rfl, rfl⟩, rfl⟩
    · rintro ⟨_, ⟨rfl, rfl⟩, rfl⟩
      exact ⟨rfl, rfl⟩
  · simp only [Option.bind_some, Option.some.injEq, Prod.mk.injEq, Except.ok.injEq,
      reduceCtorEq, false_and, exists_false, false_or]
    constructor
    · intro answered
      exact ⟨value, between, ⟨rfl, rfl⟩, answered⟩
    · rintro ⟨_, _, ⟨rfl, rfl⟩, answered⟩
      exact answered

/-- A sequence of calls returns when both of them do. -/
theorem bind_eq_ok_iff {call : Call σ α} {next : α → Call σ β} {before after : σ} {result : β} :
    (call >>= next) before = some (.ok result, after) ↔
      ∃ value between, call before = some (.ok value, between) ∧
        next value between = some (.ok result, after) := by
  rw [bind_eq_some_iff]
  simp

section Map

variable {function : α → β} {call : Call σ α} {before after : σ}

theorem map_apply (function : α → β) (call : Call σ α) (before : σ) :
    (function <$> call) before =
      (call before).map fun (ending, after) => (ending.map function, after) := by
  rw [map_eq_pure_bind, bind_apply]
  rcases call before with _ | ⟨_ | value, after⟩ <;> rfl

theorem map_of_ok {value : α} (function : α → β)
    (called : call before = some (.ok value, after)) :
    (function <$> call) before = some (.ok (function value), after) := by
  rw [map_apply, called]
  rfl

theorem map_eq_ok_iff {image : β} :
    (function <$> call) before = some (.ok image, after) ↔
      ∃ value, call before = some (.ok value, after) ∧ function value = image := by
  rw [map_apply]
  rcases call before with _ | ⟨_ | value, between⟩
  · simp
  · simp [Except.map]
  · simp only [Option.map_some, Except.map, Option.some.injEq, Prod.mk.injEq, Except.ok.injEq]
    constructor
    · rintro ⟨rfl, rfl⟩
      exact ⟨value, ⟨rfl, rfl⟩, rfl⟩
    · rintro ⟨_, ⟨rfl, rfl⟩, rfl⟩
      exact ⟨rfl, rfl⟩

theorem map_eq_error_iff {reason : Panic} :
    (function <$> call) before = some (.error reason, after) ↔
      call before = some (.error reason, after) := by
  rw [map_apply]
  rcases call before with _ | ⟨_ | value, between⟩ <;> simp [Except.map]

theorem map_eq_none_iff : (function <$> call) before = none ↔ call before = none := by
  rw [map_apply, Option.map_eq_none_iff]

end Map

/-- Every answer of the first call is one of the second. -/
def Below (first second : Call σ α) : Prop :=
  ∀ world answer, first world = some answer → second world = some answer

theorem Below.refl (call : Call σ α) : Below call call := fun _ _ answered => answered

theorem Below.antisymm {first second : Call σ α} (below : Below first second)
    (above : Below second first) : first = second := by
  funext world
  apply Option.ext
  intro answer
  exact ⟨below world answer, above world answer⟩

theorem Below.bind {first second : Call σ α} {next next' : α → Call σ β}
    (below : Below first second) (nexts : ∀ value, Below (next value) (next' value)) :
    Below (first >>= next) (second >>= next') := by
  rintro before ⟨ending, after⟩ answered
  rcases bind_eq_some_iff.mp answered with
    ⟨reason, called, rfl⟩ | ⟨value, between, called, answered⟩
  · exact bind_of_error (below _ _ called)
  · rw [bind_of_ok (below _ _ called)]
    exact nexts value _ _ answered

/-- What holds of every answer of every member of a chain holds of every answer of its least upper
bound. The order is given by what it says about answers. -/
theorem answers_of_chain {below : Option (Except Panic α × σ) → Option (Except Panic α × σ) → Prop}
    {chain : (ι → Call σ α) → Prop} {holds : ι → σ → Except Panic α × σ → Prop}
    (below_iff : ∀ first second, below first second ↔ first = none ∨ first = second)
    {least : ∃ limit : ι → Call σ α, ∀ bound : ι → Call σ α,
      (∀ index world, below (limit index world) (bound index world)) ↔
        ∀ calls, chain calls → ∀ index world, below (calls index world) (bound index world)}
    (all : ∀ calls, chain calls → ∀ index world answer, calls index world = some answer →
      holds index world answer) (index : ι) (world : σ) (answer : Except Panic α × σ)
    (answered : Classical.choose least index world = some answer) : holds index world answer := by
  classical
  have lub := Classical.choose_spec least
  simp only [below_iff] at lub
  have upper := (lub (Classical.choose least)).mp fun _ _ => .inr rfl
  by_contra fails
  -- Without this answer the limit would still be an upper bound, and a smaller one.
  have smaller := (lub fun other there =>
      if other = index ∧ there = world then none else Classical.choose least other there).mpr (by
    intro calls mem other there
    split
    · rename_i same
      rcases same with ⟨rfl, rfl⟩
      rcases upper calls mem other there with none_eq | limit_eq
      · exact .inl none_eq
      · exact absurd (all calls mem other there answer (limit_eq.trans answered)) fails
    · exact upper calls mem other there) index world
  simp [answered] at smaller

end Deferral.Call

/-!
# Calls

A call is what the library knows of a user's function: it reads and changes a world `σ`, and it
either returns a value, panics, or never returns. The world survives a panic, so the effects made
before it are kept. A call that never returns has no answer at all, which is what `none` stands for;
the loops of this library are least fixed points in the same order, so divergence needs no fuel.
-/

namespace Deferral

/-- What a panic carries: a text, or a payload that cannot be shown. -/
inductive Panic where
  | text (message : String)
  | unreadable
  deriving Repr, DecidableEq, Inhabited

namespace Panic

/-- The text of a panic, as somebody who captures it gets to see it. -/
def message : Panic → String
  | .text message => message
  | .unreadable => "Unknown panic"

end Panic

/-- The most bytes that can be taken at once: one less than `2 ^ 63`. -/
def mostBytes : Nat := 9223372036854775807

/-- A function call in a world `σ` that may return, panic or diverge. -/
abbrev Call (σ α : Type) := ExceptT Panic (StateT σ Option) α

namespace Call

variable {σ α β : Type}

/-- The call that panics with a text. -/
def panic (message : String) : Call σ α := throw (.text message)

/-- Take room for a number of items of a size in bytes. Where so many bytes cannot even be asked
for, this is a panic; otherwise the memory is taken to be there. -/
def reserve (bytes count : Nat) : Call σ Unit :=
  if bytes * count ≤ mostBytes then pure () else panic "capacity overflow"

/-- Read something off the world. -/
def read (look : σ → α) : Call σ α := do return look (← get)

/-- Change the world and return what the change yields. -/
def change (step : σ → α × σ) : Call σ α := fun world =>
  let (value, world) := step world
  some (.ok value, world)

/-- Make a call and turn its panic into a value. The world is the one the panic left. -/
def attempt (call : Call σ α) : Call σ (Except Panic α) := fun world =>
  (call world).map fun (ending, world) => (.ok ending, world)

theorem reserve_of_le {bytes count : Nat} (le : bytes * count ≤ mostBytes) :
    (reserve bytes count : Call σ Unit) = pure () := if_pos le

theorem reserve_of_lt {bytes count : Nat} (lt : mostBytes < bytes * count) :
    (reserve bytes count : Call σ Unit) = panic "capacity overflow" := if_neg (Nat.not_le.mpr lt)

@[simp]
theorem pure_apply (value : α) (world : σ) :
    (pure value : Call σ α) world = some (.ok value, world) := rfl

@[simp]
theorem throw_apply (reason : Panic) (world : σ) :
    (throw reason : Call σ α) world = some (.error reason, world) := rfl

/-- Sequencing: a panic or a divergence of the first call is that of the whole. -/
theorem bind_apply (call : Call σ α) (next : α → Call σ β) (world : σ) :
    (call >>= next) world = (call world).bind fun
      | (.ok value, world) => next value world
      | (.error reason, world) => some (.error reason, world) := by
  show ((call >>= next : ExceptT Panic (StateT σ Option) β) : σ → _) world = _
  simp only [bind, ExceptT.bind, ExceptT.mk, StateT.bind, ExceptT.bindCont]
  cases call world with
  | none => rfl
  | some result =>
      obtain ⟨ending, world⟩ := result
      cases ending <;> rfl

@[simp]
theorem change_apply (step : σ → α × σ) (world : σ) :
    change step world = some (.ok (step world).1, (step world).2) := rfl

@[simp]
theorem attempt_apply (call : Call σ α) (world : σ) :
    attempt call world = (call world).map fun (ending, world) => (.ok ending, world) := rfl

end Call

end Deferral

import Deferral.Text.Shown

/-!
# Outcomes

An outcome is a failure with a reason or a success with a value. Chaining outcomes stops at the
first failure; `zipValidate` looks at both operands and combines the reasons when both fail.
-/

namespace Deferral

/-- A failure with a reason `ε` or a success with a value `α`. Failures come before successes in the
order of outcomes. -/
inductive Outcome (ε α : Type) where
  | failure (reason : ε)
  | success (value : α)
  deriving Repr, DecidableEq

namespace Outcome

variable {ε ε' α β γ : Type}

/-- There is a value. -/
def isSuccess : Outcome ε α → Bool
  | .success _ => true
  | .failure _ => false

/-- There is a reason. -/
def isFailure : Outcome ε α → Bool
  | .success _ => false
  | .failure _ => true

/-- The value of a success. -/
def value? : Outcome ε α → Option α
  | .success value => some value
  | .failure _ => none

/-- The reason of a failure. -/
def reason? : Outcome ε α → Option ε
  | .success _ => none
  | .failure reason => some reason

/-- Give both sides to functions with a common result. -/
def fold (onFailure : ε → γ) (onSuccess : α → γ) : Outcome ε α → γ
  | .failure reason => onFailure reason
  | .success value => onSuccess value

/-- Apply a function to the value, if there is one. -/
def map (function : α → β) : Outcome ε α → Outcome ε β
  | .failure reason => .failure reason
  | .success value => .success (function value)

/-- Apply a function to the reason, if there is one. -/
def mapFailure (function : ε → ε') : Outcome ε α → Outcome ε' α
  | .failure reason => .failure (function reason)
  | .success value => .success value

/-- Go on with the value, unless the outcome is a failure already. -/
def flatMap (outcome : Outcome ε α) (function : α → Outcome ε β) : Outcome ε β :=
  match outcome with
  | .failure reason => .failure reason
  | .success value => function value

section Effects

variable {m : Type → Type} [Monad m]

/-- Apply a function with effects to the value. A failure calls nothing. -/
def mapM (outcome : Outcome ε α) (function : α → m β) : m (Outcome ε β) :=
  outcome.fold (fun reason => return .failure reason)
    (fun value => return .success (← function value))

/-- Apply a function with effects to the reason. A success calls nothing. -/
def mapFailureM (outcome : Outcome ε α) (function : ε → m ε') : m (Outcome ε' α) :=
  outcome.fold (fun reason => return .failure (← function reason))
    (fun value => return .success value)

/-- Go on with the value by a function with effects. A failure calls nothing. -/
def flatMapM (outcome : Outcome ε α) (function : α → m (Outcome ε β)) : m (Outcome ε β) :=
  outcome.fold (fun reason => return .failure reason) function

end Effects

/-- Both values, or the first reason. -/
def zip : Outcome ε α → Outcome ε β → Outcome ε (α × β)
  | .failure reason, _ => .failure reason
  | .success _, .failure reason => .failure reason
  | .success first, .success second => .success (first, second)

/-- Both values, or all reasons; the combining function may have effects and is called only if both
operands fail. -/
def zipValidate {m : Type → Type} [Monad m] (combine : ε → ε → m ε) :
    Outcome ε α → Outcome ε β → m (Outcome ε (α × β))
  | .failure first, .failure second => return .failure (← combine first second)
  | .failure reason, .success _ => return .failure reason
  | .success _, .failure reason => return .failure reason
  | .success first, .success second => return .success (first, second)

/-- The outcome as the result of a computation that may fail. -/
def toExcept : Outcome ε α → Except ε α
  | .failure reason => .error reason
  | .success value => .ok value

/-- The outcome of a computation that may fail. -/
def ofExcept : Except ε α → Outcome ε α
  | .error reason => .failure reason
  | .ok value => .success value

@[simp]
theorem ofExcept_toExcept (outcome : Outcome ε α) : ofExcept outcome.toExcept = outcome := by
  cases outcome <;> rfl

@[simp]
theorem toExcept_ofExcept (result : Except ε α) : (ofExcept result).toExcept = result := by
  cases result <;> rfl

instance : Monad (Outcome ε) where
  pure := .success
  bind := flatMap

instance : LawfulMonad (Outcome ε) :=
  .mk' _ (fun outcome => by cases outcome <;> rfl) (fun _ _ => rfl)
    (fun outcome _ _ => by cases outcome <;> rfl)

/-- Every failure is less than every success; outcomes of one kind are ordered by what they hold. -/
def compareWith (onFailure : ε → ε → Ordering) (onSuccess : α → α → Ordering) :
    Outcome ε α → Outcome ε α → Ordering
  | .failure first, .failure second => onFailure first second
  | .failure _, .success _ => .lt
  | .success _, .failure _ => .gt
  | .success first, .success second => onSuccess first second

instance [Ord ε] [Ord α] : Ord (Outcome ε α) where
  compare := compareWith compare compare

instance [Text.Show ε] [Text.Show α] : Text.Show (Outcome ε α) where
  shown
    | .failure reason => .apply "Failure" [Text.Show.shown reason]
    | .success value => .apply "Success" [Text.Show.shown value]

instance [ToString ε] [ToString α] : ToString (Outcome ε α) where
  toString
    | .failure reason => s!"Failure({reason})"
    | .success value => s!"Success({value})"

end Outcome

end Deferral

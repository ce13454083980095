import Deferral.Call
import Deferral.Outcome.Basic

/-!
# Accumulating failures

Validation looks at every operand, also after a failure, and combines the reasons of all failures
from the left; the values count only if nothing failed. The operands may be obtained one by one,
each by an action with effects, and combining may have effects too: a reason is combined with those
before it as soon as it is there, before the next operand is obtained.

`validateAll` takes a sequence of operands with values of one type and keeps a list of values, which
is given up with the first failure. `Operands.validate` takes a tuple whose values may all have
different types and keeps a slot for each of them, which stays empty where the operand failed.
-/

namespace Deferral

variable {ε α : Type} {m : Type → Type} [Monad m]

namespace Outcome

/-- Combine a reason with those before it, if there are any. -/
def accumulate (combine : ε → ε → m ε) : Option ε → ε → m ε
  | some previous, reason => combine previous reason
  | none, reason => return reason

/-- What is kept while the operands of a sequence are looked at. -/
structure Tally (ε α : Type) where
  /-- The values so far, the last one first. -/
  values : List α
  /-- The reasons so far, combined. -/
  reason? : Option ε

namespace Tally

/-- The tally before the first outcome. -/
def empty : Tally ε α where
  values := []
  reason? := none

/-- Take one more operand into account. -/
def add (combine : ε → ε → m ε) (tally : Tally ε α) : Outcome ε α → m (Tally ε α)
  | .success value =>
    return if tally.reason?.isNone then { tally with values := value :: tally.values } else tally
  | .failure reason => do
    let values := if tally.reason?.isNone then [] else tally.values
    return { values, reason? := some (← accumulate combine tally.reason? reason) }

/-- Obtain operand after operand and take each into account. -/
def addAll (combine : ε → ε → m ε) (tally : Tally ε α) : List (m (Outcome ε α)) → m (Tally ε α)
  | [] => return tally
  | pull :: pulls => do
    let outcome ← pull
    (← tally.add combine outcome).addAll combine pulls

/-- What a tally comes to: the joined reason if there was a failure, and otherwise all values in
their order. -/
def verdict (tally : Tally ε α) : Outcome ε (List α) :=
  match tally.reason? with
  | some reason => .failure reason
  | none => .success tally.values.reverse

end Tally

/-- The values of all operands in order, or the reasons of all failures combined from the left. -/
def validateAll (combine : ε → ε → m ε) (pulls : List (m (Outcome ε α))) :
    m (Outcome ε (List α)) := do
  return (← Tally.empty.addAll combine pulls).verdict

end Outcome

/-- A tuple of outcomes with one type of reasons and the given types of values. -/
def Operands (ε : Type) : List Type → Type
  | [] => Unit
  | α :: αs => Outcome ε α × Operands ε αs

/-- A tuple of values of the given types. -/
def Payloads : List Type → Type
  | [] => Unit
  | α :: αs => α × Payloads αs

/-- A tuple with a value or nothing for each of the given types. -/
def Slots : List Type → Type
  | [] => Unit
  | α :: αs => Option α × Slots αs

/-- The values of a tuple, if there is one in every slot. -/
def Slots.payloads? : (αs : List Type) → Slots αs → Option (Payloads αs)
  | [], _ => some ()
  | _ :: _, (none, _) => none
  | _ :: αs, (some value, slots) => (payloads? αs slots).map (value, ·)

namespace Operands

/-- Look at all operands from the left, with the reasons before them, and keep the values and the
reasons combined. -/
def gather (combine : ε → ε → m ε) :
    (αs : List Type) → Option ε → Operands ε αs → m (Option ε × Slots αs)
  | [], sofar, _ => return (sofar, ())
  | _ :: αs, sofar, (.success value, operands) => do
    let (reason?, slots) ← gather combine αs sofar operands
    return (reason?, some value, slots)
  | _ :: αs, sofar, (.failure reason, operands) => do
    let sofar ← Outcome.accumulate combine sofar reason
    let (reason?, slots) ← gather combine αs (some sofar) operands
    return (reason?, none, slots)

/-- The values of a tuple, or the reasons of all its failures combined from the left. A slot is
empty only after a failure, so there is nothing to be done in the case that is left to `otherwise`.
-/
def validateOr (combine : ε → ε → m ε) (αs : List Type) (otherwise : m (Outcome ε (Payloads αs)))
    (operands : Operands ε αs) : m (Outcome ε (Payloads αs)) := do
  match ← gather combine αs none operands with
  | (some reason, _) => return .failure reason
  | (none, slots) =>
    match Slots.payloads? αs slots with
    | some values => return .success values
    | none => otherwise

/-- What is said when a value is missing although nothing failed. -/
def unreachable : String :=
  "internal error: entered unreachable code: no failure was accumulated, so every operand succeeded"

/-- The values of a tuple, or the reasons of all its failures combined from the left. -/
def validate [MonadExceptOf Panic m] (combine : ε → ε → m ε) (αs : List Type)
    (operands : Operands ε αs) : m (Outcome ε (Payloads αs)) :=
  validateOr combine αs (throw (.text unreachable)) operands

/-- The tuple of a list whose items all have values of one type. -/
def ofList : (outcomes : List (Outcome ε α)) → Operands ε (outcomes.map fun _ => α)
  | [] => ()
  | outcome :: outcomes => (outcome, ofList outcomes)

end Operands

/-- The list of a tuple whose items all have one type. -/
def Payloads.toList {β : Type} : (items : List β) → Payloads (items.map fun _ => α) → List α
  | [], _ => []
  | _ :: items, (value, values) => value :: Payloads.toList items values

end Deferral

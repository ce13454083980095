import Deferral.Proofs.Lockstep.AsyncRun
import Deferral.Proofs.Lockstep.Run
import Deferral.Typed.AsyncDeferred

/-!
# Maps replaced by binds

A map makes a leaf that can be visited once. It could also be a bind that feeds the mapped value to
a leaf that has the value for good. A `Replacement` pairs computations with those in which every map
is such a bind: whatever is paired is made by the same combinator, of parts that are paired and of
functions that are alike. Computations may be paired with themselves, share parts, be built while
they run, and unfold without end, since only the first node of each pair is described.

The functions may do anything that cannot be told apart: what a user's function does with a world is
up to the user, but what was left in the places of the world is out of reach.
-/

namespace Deferral

variable {ι : Type} {Base : ι → Type} {ω ρ ρ' η η' : Type}

/-- A session whose places hold values with their types. -/
abbrev TypedSession (Base : ι → Type) (ω : Type) := Session ω (Tagged Base)

/-- Pairs of computations of the same type. -/
abbrev Pairing (Base : ι → Type) (ω ρ ρ' : Type) :=
  ∀ ⦃t : Ty ι⦄, Deferred Base (TypedSession Base ω) ρ t →
    Deferred Base (TypedSession Base ω) ρ' t → Prop

/-- Pairs of asynchronous computations of the same type. -/
abbrev AsyncPairing (Base : ι → Type) (ω η η' : Type) :=
  ∀ ⦃t : Ty ι⦄, AsyncDeferred Base (TypedSession Base ω) η t →
    AsyncDeferred Base (TypedSession Base ω) η' t → Prop

/-- The panics of the library itself that do not depend on how a map is made. -/
inductive LibraryPanic : Panic → Prop
  | mismatch : LibraryPanic (.text Deferred.mismatch)
  | promiseMismatch : LibraryPanic (.text Promise.mismatch)
  | capacity : LibraryPanic (.text "capacity overflow")

section Made

variable [DecidableEq ι] [Definitions Base ρ (TypedSession Base ω)]
  [Definitions Base ρ' (TypedSession Base ω)]

/-- Two computations that are made in the same way, but for maps. -/
inductive Made (raised : Panic → Prop) (sync : Pairing Base ω ρ ρ') : Pairing Base ω ρ ρ'
  | fromThunk {t : Ty ι} {produce produce' : Call (TypedSession Base ω) (t.Value Base)}
      (produces : produce.Alike raised Eq produce') :
      Made raised sync (.fromThunk produce) (.fromThunk produce')
  | of {t : Ty ι} (value : t.Value Base) : Made raised sync (.of value) (.of value)
  | map {s t : Ty ι} {first : Deferred Base (TypedSession Base ω) ρ s}
      {first' : Deferred Base (TypedSession Base ω) ρ' s}
      {function function' : s.Value Base → Call (TypedSession Base ω) (t.Value Base)}
      (firsts : sync first first')
      (functions : ∀ value, (function value).Alike raised Eq (function' value)) :
      Made raised sync (first.map function)
        (first'.flatMap fun value => do return .of (← function' value))
  | flatMap {s t : Ty ι} {first : Deferred Base (TypedSession Base ω) ρ s}
      {first' : Deferred Base (TypedSession Base ω) ρ' s}
      {function : s.Value Base →
        Call (TypedSession Base ω) (Deferred Base (TypedSession Base ω) ρ t)}
      {function' : s.Value Base →
        Call (TypedSession Base ω) (Deferred Base (TypedSession Base ω) ρ' t)}
      (firsts : sync first first')
      (functions : ∀ value, (function value).Alike raised (@sync t) (function' value)) :
      Made raised sync (first.flatMap function) (first'.flatMap function')
  | andThen {s t : Ty ι} {first : Deferred Base (TypedSession Base ω) ρ s}
      {first' : Deferred Base (TypedSession Base ω) ρ' s}
      {second : Deferred Base (TypedSession Base ω) ρ t}
      {second' : Deferred Base (TypedSession Base ω) ρ' t}
      (firsts : sync first first') (seconds : sync second second') :
      Made raised sync (first.andThen second) (first'.andThen second')
  | forever {t : Ty ι} {body : Deferred Base (TypedSession Base ω) ρ t}
      {body' : Deferred Base (TypedSession Base ω) ρ' t} (bodies : sync body body') :
      Made raised sync body.forever body'.forever
  | named {t : Ty ι} {name : ρ} {name' : ρ'} {right : Deferred Base (TypedSession Base ω) ρ t}
      {right' : Deferred Base (TypedSession Base ω) ρ' t}
      (shape_eq : (Graph.named name : Graph (TypedSession Base ω) (Tagged Base) _ ρ).shape =
        right.graph.shape)
      (shape_eq' : (Graph.named name' : Graph (TypedSession Base ω) (Tagged Base) _ ρ').shape =
        right'.graph.shape)
      (rights : Made raised sync right right') :
      Made raised sync ⟨.named name⟩ ⟨.named name'⟩

end Made

section AsyncMade

variable [DecidableEq ι] [Definitions Base ρ (TypedSession Base ω)]
  [Definitions Base ρ' (TypedSession Base ω)] [AsyncDefinitions Base η (TypedSession Base ω)]
  [AsyncDefinitions Base η' (TypedSession Base ω)]

/-- Promises between which nobody can tell by polling. -/
def PromisesAlike (raised : Panic → Prop)
    {t : Ty ι} (first : Promise Base (TypedSession Base ω) η t)
    (second : Promise Base (TypedSession Base ω) η' t) : Prop :=
  FuturesAlike raised first.future second.future

/-- Two asynchronous computations that are made in the same way, but for maps. -/
inductive AsyncMade (raised : Panic → Prop) (sync : Pairing Base ω ρ ρ')
    (async : AsyncPairing Base ω η η') : AsyncPairing Base ω η η'
  | fromThunk {t : Ty ι} {produce produce' : Call (TypedSession Base ω) (t.Value Base)}
      (produces : produce.Alike raised Eq produce') :
      AsyncMade raised sync async (.fromThunk produce) (.fromThunk produce')
  | of {t : Ty ι} (value : t.Value Base) : AsyncMade raised sync async (.of value) (.of value)
  | fromAsync {t : Ty ι}
      {action : Call (TypedSession Base ω) (Promise Base (TypedSession Base ω) η t)}
      {action' : Call (TypedSession Base ω) (Promise Base (TypedSession Base ω) η' t)}
      (actions : action.Alike raised (PromisesAlike raised) action') :
      AsyncMade raised sync async (.fromAsync action) (.fromAsync action')
  | fromDeferred {t : Ty ι} {computation : Deferred Base (TypedSession Base ω) ρ t}
      {computation' : Deferred Base (TypedSession Base ω) ρ' t}
      (computations : sync computation computation') :
      AsyncMade raised sync async (.fromDeferred computation) (.fromDeferred computation')
  | map {s t : Ty ι} {first : AsyncDeferred Base (TypedSession Base ω) η s}
      {first' : AsyncDeferred Base (TypedSession Base ω) η' s}
      {function function' : s.Value Base → Call (TypedSession Base ω) (t.Value Base)}
      (firsts : async first first')
      (functions : ∀ value, (function value).Alike raised Eq (function' value)) :
      AsyncMade raised sync async (first.map function)
        (first'.flatMap fun value => do return .of (← function' value))
  | flatMap {s t : Ty ι} {first : AsyncDeferred Base (TypedSession Base ω) η s}
      {first' : AsyncDeferred Base (TypedSession Base ω) η' s}
      {function : s.Value Base →
        Call (TypedSession Base ω) (AsyncDeferred Base (TypedSession Base ω) η t)}
      {function' : s.Value Base →
        Call (TypedSession Base ω) (AsyncDeferred Base (TypedSession Base ω) η' t)}
      (firsts : async first first')
      (functions : ∀ value, (function value).Alike raised (@async t) (function' value)) :
      AsyncMade raised sync async (first.flatMap function) (first'.flatMap function')
  | andThen {s t : Ty ι} {first : AsyncDeferred Base (TypedSession Base ω) η s}
      {first' : AsyncDeferred Base (TypedSession Base ω) η' s}
      {second : AsyncDeferred Base (TypedSession Base ω) η t}
      {second' : AsyncDeferred Base (TypedSession Base ω) η' t}
      (firsts : async first first') (seconds : async second second') :
      AsyncMade raised sync async (first.andThen second) (first'.andThen second')
  | forever {t : Ty ι} {body : AsyncDeferred Base (TypedSession Base ω) η t}
      {body' : AsyncDeferred Base (TypedSession Base ω) η' t} (bodies : async body body') :
      AsyncMade raised sync async body.forever body'.forever
  | sleep (milliseconds : Nat) :
      AsyncMade raised sync async (.sleep milliseconds) (.sleep milliseconds)
  | delay {t : Ty ι} {computation : AsyncDeferred Base (TypedSession Base ω) η t}
      {computation' : AsyncDeferred Base (TypedSession Base ω) η' t}
      (computations : async computation computation') (milliseconds : Nat) :
      AsyncMade raised sync async (computation.delay milliseconds)
        (computation'.delay milliseconds)
  | repeated {t : Ty ι} {body : AsyncDeferred Base (TypedSession Base ω) η t}
      {body' : AsyncDeferred Base (TypedSession Base ω) η' t} (bodies : async body body')
      (count : Nat) : AsyncMade raised sync async (body.repeated count) (body'.repeated count)
  | named {t : Ty ι} {name : η} {name' : η'}
      {right : AsyncDeferred Base (TypedSession Base ω) η t}
      {right' : AsyncDeferred Base (TypedSession Base ω) η' t}
      (shape_eq : (Graph.named name : AsyncGraph (TypedSession Base ω) (Tagged Base) η).shape =
        right.graph.shape)
      (shape_eq' : (Graph.named name' : AsyncGraph (TypedSession Base ω) (Tagged Base) η').shape =
        right'.graph.shape)
      (rights : AsyncMade raised sync async right right') :
      AsyncMade raised sync async ⟨.named name⟩ ⟨.named name'⟩

/-- Computations paired with those in which every map is a bind. -/
structure Replacement (raised : Panic → Prop) (Base : ι → Type) (ω ρ ρ' η η' : Type)
    [Definitions Base ρ (TypedSession Base ω)] [Definitions Base ρ' (TypedSession Base ω)]
    [AsyncDefinitions Base η (TypedSession Base ω)]
    [AsyncDefinitions Base η' (TypedSession Base ω)] where
  sync : Pairing Base ω ρ ρ'
  async : AsyncPairing Base ω η η'
  sync_made : ∀ {t : Ty ι} {first second}, @sync t first second → Made raised sync first second
  async_made : ∀ {t : Ty ι} {first second}, @async t first second →
    AsyncMade raised sync async first second
  library_raised : ∀ reason, LibraryPanic reason → raised reason

end AsyncMade

end Deferral

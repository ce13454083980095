import Deferral.Proofs.Time.Paced
import Deferral.Typed.AsyncDeferred

/-!
# Computations that take no time but for sleeping

The combinators of asynchronous computations keep them paced: if what a user's functions and leaves
do takes no time, then the only leaves of a computation that take some are those of `sleep` and
`delay`. Names may stand for computations that are built of each other without end, so what is given
here is a family of computations each of which is built of others in the family.
-/

namespace Deferral

namespace AsyncGraph

variable {σ V ρ α : Type} [Host σ V] {paced : AsyncGraph σ V ρ → Prop}

theorem fromThunk_paced [Unital V] [Equations ρ σ (Future σ V ρ) V] {produce : Call σ V}
    (takesNoTime : produce.TakesNoTime) :
    PacedNode paced (Graph.fromThunk produce : AsyncGraph σ V ρ).shape := by
  refine .work (takesNoTime.map _) fun leaf returned => ?_
  rcases Call.canReturn_map returned with ⟨value, _, rfl⟩
  exact .ready value

variable [VirtualClock σ] {body : AsyncGraph σ V ρ} {accept : V → Call σ α}
  (body_paced : paced body) (accepts : ∀ value, (accept value).TakesNoTime)

include body_paced accepts

theorem rounds_awake (collect : List α → V) (count left : Nat) (items : List α) :
    (rounds body accept collect count left items).Awake paced := by
  induction left generalizing items with
  | zero => exact .ready _
  | succ left ih =>
      refine .begin ((Call.TakesNoTime.report _).bind fun _ => .pure _) fun next returned => ?_
      rcases Call.canReturn_bind returned with ⟨_, _, returned⟩
      obtain rfl := Call.canReturn_pure returned
      refine .chain (.visit body_paced nofun) (fun value => ?_) fun value rest returned => ?_
      · exact (accepts value).bind fun _ => .pure _
      · rcases Call.canReturn_bind returned with ⟨item, _, returned⟩
        obtain rfl := Call.canReturn_pure returned
        exact ih (item :: items)

theorem repeatedWith_paced [Unital V] [Equations ρ σ (Future σ V ρ) V] (collect : List α → V)
    (count : Nat) : PacedNode paced (body.repeatedWith accept collect count).shape := by
  refine .work ((Call.TakesNoTime.reserve _ _).bind fun _ => .pure _) fun leaf returned => ?_
  rcases Call.canReturn_bind returned with ⟨_, _, returned⟩
  obtain rfl := Call.canReturn_pure returned
  exact rounds_awake body_paced accepts collect count count []

end AsyncGraph

theorem Tagged.expect_takesNoTime {ι σ : Type} {Base : ι → Type} [DecidableEq ι]
    [Host σ (Tagged Base)] (complaint : String) (t : Ty ι) (value : Tagged Base) :
    (value.expect complaint t : Call σ _).TakesNoTime := by
  rw [expect]
  cases value.as? t with
  | none => exact .panic _
  | some item => exact .pure item

namespace AsyncDeferred

open AsyncGraph

/-- Some asynchronous computations of each type. -/
abbrev Family {ι : Type} (Base : ι → Type) (σ ρ : Type) :=
  ∀ ⦃t : Ty ι⦄, AsyncDeferred Base σ ρ t → Prop

variable {ι σ ρ : Type} {Base : ι → Type} [Host σ (Tagged Base)] {s t : Ty ι}

theorem tagged_takesNoTime {call : Call σ (t.Value Base)} (takesNoTime : call.TakesNoTime) :
    (Deferred.tagged call).TakesNoTime :=
  takesNoTime.bind fun _ => .pure _

variable [DecidableEq ι]

/-- The graphs that a family of computations visits: those of its members, and the ones that its
combinators make of them. -/
inductive PacedGraph (built : Family Base σ ρ) :
    AsyncGraph σ (Tagged Base) ρ → Prop
  | member {t : Ty ι} {computation : AsyncDeferred Base σ ρ t}
      (computation_built : built computation) :
      PacedGraph built computation.graph
  | sleep (milliseconds : Nat) : PacedGraph built (AsyncGraph.sleep milliseconds)
  | once (place : Nat) : PacedGraph built (Graph.once place)
  | forever {t : Ty ι} {body : AsyncDeferred Base σ ρ t} (body_built : built body) :
      PacedGraph built body.forever.graph

/-- A computation that is built of a family, whose functions and leaves take no time. A leaf that is
awaited may suspend as often as it likes, as long as it does not wait for the clock. -/
inductive Paced [AsyncDefinitions Base ρ σ]
    (built : Family Base σ ρ) :
    Family Base σ ρ
  | fromThunk {t : Ty ι} {produce : Call σ (t.Value Base)} (takesNoTime : produce.TakesNoTime) :
      Paced built (.fromThunk produce)
  | of {t : Ty ι} (value : t.Value Base) : Paced built (.of value)
  | fromAsync {t : Ty ι} {action : Call σ (Promise Base σ ρ t)} (takesNoTime : action.TakesNoTime)
      (returns : ∀ promise, action.CanReturn promise → promise.future.Awake (PacedGraph built)) :
      Paced built (.fromAsync action)
  | sleep (milliseconds : Nat) : Paced built (.sleep milliseconds)
  | delay {t : Ty ι} {computation : AsyncDeferred Base σ ρ t}
      (computation_built : built computation)
      (milliseconds : Nat) : Paced built (computation.delay milliseconds)
  | repeated {t : Ty ι} {body : AsyncDeferred Base σ ρ t} (body_built : built body) (count : Nat) :
      Paced built (body.repeated count)
  | map {s t : Ty ι} {first : AsyncDeferred Base σ ρ s}
      {function : s.Value Base → Call σ (t.Value Base)}
      (first_built : built first) (takesNoTime : ∀ value, (function value).TakesNoTime) :
      Paced built (first.map function)
  | flatMap {s t : Ty ι} {first : AsyncDeferred Base σ ρ s}
      {function : s.Value Base → Call σ (AsyncDeferred Base σ ρ t)} (first_built : built first)
      (takesNoTime : ∀ value, (function value).TakesNoTime)
      (returns : ∀ value next, (function value).CanReturn next → built next) :
      Paced built (first.flatMap function)
  | andThen {s t : Ty ι} {first : AsyncDeferred Base σ ρ s} {second : AsyncDeferred Base σ ρ t}
      (first_built : built first) (second_built : built second) :
      Paced built (first.andThen second)
  | forever {t : Ty ι} {body : AsyncDeferred Base σ ρ t} (body_built : built body) :
      Paced built body.forever
  | named {t : Ty ι} {name : ρ} {right : AsyncDeferred Base σ ρ t}
      (shape_eq : (Graph.named name : AsyncGraph σ (Tagged Base) ρ).shape = right.graph.shape)
      (right_paced : Paced built right) : Paced built (t := t) ⟨.named name⟩

/-- A family of computations each of which is built of others in the family. -/
structure PacedFamily (Base : ι → Type) (σ ρ : Type) [Host σ (Tagged Base)]
    [AsyncDefinitions Base ρ σ] where
  built : Family Base σ ρ
  paced : ∀ {t : Ty ι} {computation : AsyncDeferred Base σ ρ t}, built computation →
    Paced built computation

variable {built : Family Base σ ρ}

theorem checked_paced {function : s.Value Base → Call σ (AsyncDeferred Base σ ρ t)}
    (takesNoTime : ∀ value, (function value).TakesNoTime)
    (returns : ∀ value next, (function value).CanReturn next → PacedGraph built next.graph) :
    ContinuationPaced (PacedGraph built) (checked function) where
  takesNoTime value := (Tagged.expect_takesNoTime _ s value).bind fun item =>
    (takesNoTime item).bind fun _ => .pure _
  returns value node returned := by
    rcases Call.canReturn_bind returned with ⟨item, _, returned⟩
    rcases Call.canReturn_bind returned with ⟨next, next_returned, returned⟩
    obtain rfl := Call.canReturn_pure returned
    exact returns item next next_returned

variable [VirtualClock σ] [AsyncDefinitions Base ρ σ]

/-- What a computation visits first is paced if the computation is. -/
theorem Paced.node {computation : AsyncDeferred Base σ ρ t} (paced : Paced built computation) :
    PacedNode (PacedGraph built) computation.graph.shape := by
  induction paced with
  | fromThunk takesNoTime => exact fromThunk_paced (tagged_takesNoTime takesNoTime)
  | of value => exact fromThunk_paced (tagged_takesNoTime (.pure value))
  | fromAsync takesNoTime returns =>
      refine .work (takesNoTime.bind fun _ => .pure _) fun leaf returned => ?_
      rcases Call.canReturn_bind returned with ⟨promise, promised, returned⟩
      obtain rfl := Call.canReturn_pure returned
      exact returns promise promised
  | sleep milliseconds => exact .sleep milliseconds
  | delay computation_built milliseconds =>
      refine .bind (.sleep milliseconds)
        (checked_paced (fun _ => .pure _) fun _ next returned => ?_)
      obtain rfl := Call.canReturn_pure returned
      exact .member computation_built
  | repeated body_built count =>
      exact repeatedWith_paced (.member body_built) (Tagged.expect_takesNoTime _ _) _ count
  | map first_built takesNoTime =>
      refine .bind (.member first_built) (checked_paced (fun value => ?_) fun _ next returned => ?_)
      · refine (tagged_takesNoTime (takesNoTime value)).bind fun result => ?_
        refine .bind ?_ fun _ => .pure _
        exact .bind (.change (VirtualClock.now_leave result)) fun _ => .pure _
      · rcases Call.canReturn_bind returned with ⟨result, _, returned⟩
        rcases Call.canReturn_bind returned with ⟨graph, left, returned⟩
        obtain rfl := Call.canReturn_pure returned
        rcases Call.canReturn_bind left with ⟨place, _, returned⟩
        obtain rfl := Call.canReturn_pure returned
        exact .once place
  | flatMap first_built takesNoTime returns =>
      refine .bind (.member first_built) (checked_paced takesNoTime fun value next returned => ?_)
      exact .member (returns value next returned)
  | andThen first_built second_built =>
      refine .bind (.member first_built)
        (checked_paced (fun _ => .pure _) fun _ next returned => ?_)
      obtain rfl := Call.canReturn_pure returned
      exact .member second_built
  | @forever t body body_built =>
      refine .bind (.member body_built) ⟨fun value => ?_, fun value node returned => ?_⟩
      · exact ((Tagged.expect_takesNoTime _ t value).bind fun _ => .pure _).bind fun _ => .pure _
      · rcases Call.canReturn_bind returned with ⟨_, _, returned⟩
        obtain rfl := Call.canReturn_pure returned
        exact .forever body_built
  | named shape_eq _ ih =>
      rw [shape_eq]
      exact ih

/-- Whatever a computation of the family visits is paced. -/
theorem PacedFamily.closed (family : PacedFamily Base σ ρ) (graph : AsyncGraph σ (Tagged Base) ρ)
    (graph_paced : PacedGraph family.built graph) :
    PacedNode (PacedGraph family.built) graph.shape := by
  cases graph_paced with
  | member computation_built => exact (family.paced computation_built).node
  | sleep milliseconds => exact .sleep milliseconds
  | once place => exact fromThunk_paced (.takeOnce place)
  | forever body_built => exact (Paced.forever body_built).node

end AsyncDeferred

end Deferral

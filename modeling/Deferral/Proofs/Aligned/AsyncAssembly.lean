import Deferral.Proofs.Aligned.Assembly
import Deferral.Proofs.Aligned.Future
import Deferral.Proofs.Time.Combinators

/-!
# Asynchronous computations that are assembled by the combinators

What the combinators of asynchronous computations make fits together as well. A leaf may run a
synchronous computation, which has a stack of its own, or another asynchronous one several times
over, and it may await any promise that fits together itself.
-/

namespace Deferral.AsyncDeferred

open Deferred (tagged_panicsOnly type_of_tagged)

variable {ι σ ρ : Type} {Base : ι → Type} [DecidableEq ι] [Host σ (Tagged Base)]
  {raised : Panic → Prop} {s t : Ty ι}

/-- The graphs of a family: those of its members, the endless loops over them, which come back to
themselves, and the sleeps by which a delay begins. -/
inductive Known (members : Family Base σ ρ) : Ty ι → AsyncGraph σ (Tagged Base) ρ → Prop
  | member {t : Ty ι} {computation : AsyncDeferred Base σ ρ t} (is_member : members computation) :
      Known members t computation.graph
  | forever {t : Ty ι} {body : AsyncDeferred Base σ ρ t} (is_member : members body) :
      Known members .never body.forever.graph
  | sleep (milliseconds : Nat) : Known members .unit (AsyncGraph.sleep milliseconds)

/-- What is known of the graphs of an asynchronous family whose functions raise certain panics. -/
def typing (raised : Panic → Prop) (members : Family Base σ ρ) :
    Typing Base σ (Future σ (Tagged Base) ρ) ρ where
  complaint := Promise.mismatch
  raised := raised
  known := Known members

/-- A computation that a combinator makes of members of a family, of functions that panic only with
what is raised, and of promises that fit together. -/
inductive Assembled [AsyncDefinitions Base ρ σ] (raised : Panic → Prop)
    (members : Family Base σ ρ) :
    Family Base σ ρ
  | fromThunk {t : Ty ι} {produce : Call σ (t.Value Base)} (panics : produce.PanicsOnly raised) :
      Assembled raised members (.fromThunk produce)
  | of {t : Ty ι} (value : t.Value Base) : Assembled raised members (.of value)
  | fromAsync {t : Ty ι} {action : Call σ (Promise Base σ ρ t)} (panics : action.PanicsOnly raised)
      (returns : ∀ ⦃before promise after⦄, action before = some (.ok promise, after) →
        promise.future.Aligned (typing raised members) t after) :
      Assembled raised members (.fromAsync action)
  | fromDeferred {t : Ty ι} {ρ' : Type} [Definitions Base ρ' σ]
      (assembly : Deferred.Assembly Base σ ρ' raised) {computation : Deferred Base σ ρ' t}
      (is_member : assembly.members computation) :
      Assembled raised members (.fromDeferred computation)
  | sleep (milliseconds : Nat) : Assembled raised members (.sleep milliseconds)
  | delay {t : Ty ι} {computation : AsyncDeferred Base σ ρ t}
      (computation_member : members computation) (milliseconds : Nat) :
      Assembled raised members (computation.delay milliseconds)
  /-- There may be more values than there is room for. -/
  | repeated {t : Ty ι} {body : AsyncDeferred Base σ ρ t} (body_member : members body) (count : Nat)
      (overflows : AsyncGraph.mostItems < count → raised (.text "capacity overflow")) :
      Assembled raised members (body.repeated count)
  | map {s t : Ty ι} {first : AsyncDeferred Base σ ρ s}
      {function : s.Value Base → Call σ (t.Value Base)} (first_member : members first)
      (panics : ∀ item, (function item).PanicsOnly raised) :
      Assembled raised members (first.map function)
  | flatMap {s t : Ty ι} {first : AsyncDeferred Base σ ρ s}
      {function : s.Value Base → Call σ (AsyncDeferred Base σ ρ t)} (first_member : members first)
      (panics : ∀ item, (function item).PanicsOnly raised)
      (returns : ∀ item next, (function item).CanReturn next → members next) :
      Assembled raised members (first.flatMap function)
  | andThen {s t : Ty ι} {first : AsyncDeferred Base σ ρ s} {second : AsyncDeferred Base σ ρ t}
      (first_member : members first) (second_member : members second) :
      Assembled raised members (first.andThen second)
  | forever {t : Ty ι} {body : AsyncDeferred Base σ ρ t} (body_member : members body) :
      Assembled raised members body.forever
  | named {t : Ty ι} {name : ρ} {right : AsyncDeferred Base σ ρ t}
      (shape_eq : (Graph.named name : AsyncGraph σ (Tagged Base) ρ).shape = right.graph.shape)
      (right_assembled : Assembled raised members right) :
      Assembled raised members (t := t) ⟨.named name⟩

/-- A family of computations each of which is assembled of others in the family. -/
structure Assembly (Base : ι → Type) (σ ρ : Type) [Host σ (Tagged Base)] [AsyncDefinitions Base ρ σ]
    (raised : Panic → Prop) where
  members : Family Base σ ρ
  assembled : ∀ {t : Ty ι} {computation : AsyncDeferred Base σ ρ t}, members computation →
    Assembled raised members computation

variable {members : Family Base σ ρ}

theorem yields_member {computation : AsyncDeferred Base σ ρ t} (is_member : members computation)
    (world : σ) : (typing raised members).Yields t computation.graph world :=
  .known (Known.member is_member) world

theorem yields_sleep (milliseconds : Nat) (world : σ) :
    (typing raised members).Yields .unit (AsyncGraph.sleep milliseconds) world :=
  .known (Known.sleep milliseconds) world

/-- The continuation of a bind takes what its function takes. -/
theorem checked_takes {function : s.Value Base → Call σ (AsyncDeferred Base σ ρ t)}
    (panics : ∀ item, (function item).PanicsOnly raised)
    (answers : ∀ item ⦃before next after⦄, function item before = some (.ok next, after) →
      (typing raised members).Yields t next.graph after) :
    (typing raised members).Takes s t (checked function) :=
  .of_function graph panics answers

/-- The rounds of a repetition collect values of the type that its body has. -/
theorem rounds_aligned {body : AsyncDeferred Base σ ρ t} (body_member : members body)
    (count left : Nat) (items : List (t.Value Base)) (world : σ) :
    (AsyncGraph.rounds body.graph (fun value => value.expect Promise.mismatch t)
      (fun items => ⟨.list t, items⟩) count left items).Aligned (typing raised members) (.list t)
      world := by
  induction left generalizing items world with
  | zero => exact .ready (t := .list t) items.reverse world
  | succ left ih =>
      refine .begin (.bind (.change _) fun _ => .pure _) (fun before next after called => ?_) world
      rcases Call.bind_eq_ok_iff.mp called with ⟨_, between, _, answered⟩
      cases answered
      refine .chain (Future.aligned_ofGraph (Known.member body_member) _) (fun item => ?_) ?_
      · simp only [Tagged.expect_mk, pure_bind]
        exact .pure _
      · intro item before rest after called
        simp only [Tagged.expect_mk, pure_bind] at called
        cases called
        exact ih (item :: items) _

theorem repeated_node {body : AsyncDeferred Base σ ρ t} (body_member : members body) {count : Nat}
    (overflows : AsyncGraph.mostItems < count → raised (.text "capacity overflow"))
    [AsyncDefinitions Base ρ σ] (world : σ) :
    (typing raised members).Node (Future.Aligned (typing raised members))
      (.list t) world (body.repeated count).graph.shape := by
  have large : mostBytes < AsyncGraph.itemBytes * count → AsyncGraph.mostItems < count := by
    have le_iff := AsyncGraph.bytes_le_iff count
    omega
  have room_panics : (Call.reserve AsyncGraph.itemBytes count : Call σ Unit).PanicsOnly raised :=
    .reserve fun lt => overflows (large lt)
  refine .leaf (fun reason after called => ?_) fun future after called => ?_
  · exact room_panics.bind (fun _ => .pure _) called
  · rcases Call.bind_eq_ok_iff.mp called with ⟨_, between, _, answered⟩
    cases answered
    exact rounds_aligned body_member count count [] _

variable [AsyncDefinitions Base ρ σ]

theorem sleep_node (milliseconds : Nat) (world : σ) :
    (typing raised members).Node (Future.Aligned (typing raised members))
      .unit world (AsyncGraph.sleep milliseconds : AsyncGraph σ (Tagged Base) ρ).shape := by
  refine .leaf (fun reason after called => ?_) fun future after called => ?_
  · cases called
  · cases called
    exact .sleep (t := .unit) _ () _

/-- The first node of a computation yields values of its type. -/
theorem Assembled.node {computation : AsyncDeferred Base σ ρ t}
    (assembled : Assembled raised members computation) (world : σ) :
    (typing raised members).Node (Future.Aligned (typing raised members))
      t world computation.graph.shape := by
  have ready : ∀ {t : Ty ι} {call : Call σ (t.Value Base)}, call.PanicsOnly raised →
      (typing raised members).Node (Future.Aligned (typing raised members)) t world
        (AsyncDeferred.fromThunk call : AsyncDeferred Base σ ρ t).graph.shape := by
    intro t call panics
    refine .fromThunk (fun _ _ called => tagged_panicsOnly panics called)
      fun value after called => ?_
    rcases value with ⟨type, item⟩
    obtain rfl := type_of_tagged called
    exact .ready item after
  induction assembled with
  | fromThunk panics => exact ready panics
  | of value => exact ready (.pure value)
  | fromAsync panics returns =>
      refine .leaf (fun reason after called => ?_) fun future after called => ?_
      · exact (panics.bind fun _ => .pure _) called
      · rcases Call.bind_eq_ok_iff.mp called with ⟨promise, between, promised, answered⟩
        cases answered
        exact returns promised
  | fromDeferred assembly is_member => exact ready (assembly.run_panicsOnly is_member)
  | sleep milliseconds => exact sleep_node milliseconds world
  | delay computation_member milliseconds =>
      refine .bind (yields_sleep milliseconds world) (checked_takes (fun _ => .pure _) ?_)
      intro item before next after called
      cases called
      exact yields_member computation_member _
  | repeated body_member count overflows => exact repeated_node body_member overflows world
  | map first_member panics =>
      refine .bind (yields_member first_member world) (checked_takes (fun item => ?_) ?_)
      · exact Typing.left_panicsOnly (tagged_panicsOnly (panics item))
      · intro item before next after called
        exact Typing.yields_of_left (fun _ => rfl)
          (fun _ _ returned => type_of_tagged returned) called
  | flatMap first_member panics returns =>
      refine .bind (yields_member first_member world) (checked_takes panics ?_)
      intro item before next after called
      exact yields_member (returns item next (Call.canReturn_of called)) after
  | andThen first_member second_member =>
      refine .bind (yields_member first_member world) (checked_takes (fun _ => .pure _) ?_)
      intro item before next after called
      cases called
      exact yields_member second_member _
  | forever body_member =>
      exact .bind (yields_member body_member world) (.of_accept (Known.forever body_member))
  | named shape_eq _ ih =>
      rw [shape_eq]
      exact ih

namespace Assembly

variable (assembly : Assembly Base σ ρ raised)

/-- The typing of the graphs that the family is made of. -/
abbrev typing : Typing Base σ (Future σ (Tagged Base) ρ) ρ :=
  AsyncDeferred.typing raised assembly.members

theorem closed : assembly.typing.Closed (Future.Aligned assembly.typing) := by
  rintro t graph world (⟨member | member | milliseconds, _⟩ | ⟨value, world⟩)
  · exact (assembly.assembled member).node world
  · exact (Assembled.forever member).node world
  · exact sleep_node milliseconds world
  · exact .left (.ready value.value world)

end Assembly

end Deferral.AsyncDeferred

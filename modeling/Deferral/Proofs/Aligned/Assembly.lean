import Deferral.Proofs.Aligned.Machine
import Deferral.Proofs.Time.Clock
import Deferral.Typed.Deferred

/-!
# Computations that are assembled by the combinators

A computation that has a type is made by the combinators, one upon the other. What each of them
makes fits together if what it is given does, whatever types are mixed. A name may stand for a
computation that unfolds to others without end, so what is given here is not how one computation was
made, but a family of computations each of which is assembled of others in the family.
-/

namespace Deferral

variable {ι σ ρ : Type} {Base : ι → Type} {raised : Panic → Prop} {s t : Ty ι}

theorem Deferred.tagged_panicsOnly {call : Call σ (t.Value Base)}
    (panics : call.PanicsOnly raised) :
    (tagged call).PanicsOnly raised :=
  panics.bind fun _ => .pure _

theorem Deferred.type_of_tagged {call : Call σ (t.Value Base)} {before after : σ}
    {value : Tagged Base}
    (called : tagged call before = some (.ok value, after)) : value.type = t := by
  rcases Call.bind_eq_ok_iff.mp called with ⟨item, between, _, answered⟩
  cases answered
  rfl

variable [DecidableEq ι] [Host σ (Tagged Base)]

namespace Deferred

/-- Some computations of each type. -/
abbrev Family {ι : Type} (Base : ι → Type) (σ ρ : Type) :=
  ∀ ⦃t : Ty ι⦄, Deferred Base σ ρ t → Prop

/-- The graphs of a family: those of its members, and the endless loops over them, which come back
to themselves. -/
inductive Known (members : Family Base σ ρ) : Ty ι → Graph σ (Tagged Base) (Tagged Base) ρ → Prop
  | member {t : Ty ι} {computation : Deferred Base σ ρ t} (is_member : members computation) :
      Known members t computation.graph
  | forever {t : Ty ι} {body : Deferred Base σ ρ t} (is_member : members body) :
      Known members .never body.forever.graph

/-- What is known of the graphs of a family whose functions raise certain panics. -/
def typing (raised : Panic → Prop) (members : Family Base σ ρ) : Typing Base σ (Tagged Base) ρ where
  complaint := mismatch
  raised := raised
  known := Known members

/-- A computation that a combinator makes of members of a family and of functions that panic only
with what is raised. -/
inductive Assembled [Definitions Base ρ σ] (raised : Panic → Prop) (members : Family Base σ ρ) :
    Family Base σ ρ
  | fromThunk {t : Ty ι} {produce : Call σ (t.Value Base)} (panics : produce.PanicsOnly raised) :
      Assembled raised members (.fromThunk produce)
  | of {t : Ty ι} (value : t.Value Base) : Assembled raised members (.of value)
  | map {s t : Ty ι} {first : Deferred Base σ ρ s} {function : s.Value Base → Call σ (t.Value Base)}
      (first_member : members first) (panics : ∀ item, (function item).PanicsOnly raised) :
      Assembled raised members (first.map function)
  | flatMap {s t : Ty ι} {first : Deferred Base σ ρ s}
      {function : s.Value Base → Call σ (Deferred Base σ ρ t)} (first_member : members first)
      (panics : ∀ item, (function item).PanicsOnly raised)
      (returns : ∀ item next, (function item).CanReturn next → members next) :
      Assembled raised members (first.flatMap function)
  | andThen {s t : Ty ι} {first : Deferred Base σ ρ s} {second : Deferred Base σ ρ t}
      (first_member : members first) (second_member : members second) :
      Assembled raised members (first.andThen second)
  | forever {t : Ty ι} {body : Deferred Base σ ρ t} (body_member : members body) :
      Assembled raised members body.forever
  | named {t : Ty ι} {name : ρ} {right : Deferred Base σ ρ t}
      (shape_eq : (Graph.named name : Graph σ (Tagged Base) (Tagged Base) ρ).shape =
        right.graph.shape)
      (right_assembled : Assembled raised members right) :
      Assembled raised members (t := t) ⟨.named name⟩

/-- A family of computations each of which is assembled of others in the family. -/
structure Assembly (Base : ι → Type) (σ ρ : Type) [Host σ (Tagged Base)] [Definitions Base ρ σ]
    (raised : Panic → Prop) where
  members : Family Base σ ρ
  assembled : ∀ {t : Ty ι} {computation : Deferred Base σ ρ t}, members computation →
    Assembled raised members computation

variable {members : Family Base σ ρ}

theorem yields_member {computation : Deferred Base σ ρ t} (is_member : members computation)
    (world : σ) : (typing raised members).Yields t computation.graph world :=
  .known (Known.member is_member) world

/-- The continuation of a bind takes what its function takes. -/
theorem checked_takes {function : s.Value Base → Call σ (Deferred Base σ ρ t)}
    (panics : ∀ item, (function item).PanicsOnly raised)
    (answers : ∀ item ⦃before next after⦄, function item before = some (.ok next, after) →
      (typing raised members).Yields t next.graph after) :
    (typing raised members).Takes s t (checked function) :=
  .of_function graph panics answers

variable [Definitions Base ρ σ]

/-- The first node of a computation yields values of its type. -/
theorem Assembled.node {computation : Deferred Base σ ρ t}
    (assembled : Assembled raised members computation) (world : σ) :
    (typing raised members).Node (fun t value _ => value.type = t) t world
      computation.graph.shape := by
  induction assembled with
  | fromThunk panics =>
      exact .fromThunk (fun _ _ called => tagged_panicsOnly panics called)
        fun _ _ called => type_of_tagged called
  | of value =>
      exact .fromThunk (fun _ _ called => tagged_panicsOnly (.pure value) called)
        fun _ _ called => type_of_tagged called
  | map first_member panics =>
      refine .bind (yields_member first_member world) (checked_takes (fun item => ?_) ?_)
      · exact Typing.left_panicsOnly (tagged_panicsOnly (panics item))
      · intro item before next after called
        exact Typing.yields_of_left (fun _ => rfl)
          (fun _ _ returned => type_of_tagged returned) called
  | flatMap first_member panics returns =>
      refine .bind (yields_member first_member world) (checked_takes panics ?_)
      intro item before next after called
      exact yields_member (returns item next (Call.canReturn_of called)) after
  | andThen first_member second_member =>
      refine .bind (yields_member first_member world) (checked_takes (fun _ => .pure _) ?_)
      intro item before next after called
      cases called
      exact yields_member second_member _
  | forever body_member =>
      exact .bind (yields_member body_member world) (.of_accept (Known.forever body_member))
  | named shape_eq _ ih =>
      rw [shape_eq]
      exact ih

namespace Assembly

variable (assembly : Assembly Base σ ρ raised)

/-- The typing of the graphs that the family is made of. -/
abbrev typing : Typing Base σ (Tagged Base) ρ := Deferred.typing raised assembly.members

theorem sound : assembly.typing.Sound := by
  rintro t graph world (⟨member | member, _⟩ | ⟨value, world⟩)
  · exact (assembly.assembled member).node world
  · exact (Assembled.forever member).node world
  · exact .left rfl

variable {computation : Deferred Base σ ρ t} (is_member : assembly.members computation)
  {before after : σ}

include is_member

/-- The value of a run is of the type that is looked for at its end. -/
theorem run_of_ran {value : Tagged Base}
    (ran : computation.graph.run before = some (.ok value, after)) :
    ∃ item, value = ⟨t, item⟩ ∧ computation.run before = some (.ok item, after) := by
  have type_eq := Graph.type_of_run assembly.sound (Known.member is_member) ran
  rcases value with ⟨type, item⟩
  obtain rfl : type = t := type_eq
  refine ⟨item, rfl, ?_⟩
  rw [run, Call.bind_of_ok ran, Tagged.expect_mk]
  rfl

theorem run_panicsOnly : computation.run.PanicsOnly raised := by
  intro before reason after ran
  rcases Call.bind_eq_some_iff.mp ran with ⟨_, panicked, same⟩ | ⟨value, between, returned, _⟩
  · cases same
    exact Graph.run_panicsOnly assembly.sound (Known.member is_member) panicked
  · rcases assembly.run_of_ran is_member returned with ⟨item, _, answered⟩
    cases answered.symm.trans ran

theorem runWith_of_ran {options : RunOptions} {completed : Completed (Tagged Base)}
    (ran : computation.graph.runWith options before = some (.ok (.ok completed), after)) :
    ∃ item, completed.value = ⟨t, item⟩ ∧
      computation.runWith options before = some (.ok (.ok ⟨item, completed.stats⟩), after) := by
  have type_eq := Graph.type_of_runWith assembly.sound (Known.member is_member) ran
  rcases completed with ⟨⟨type, item⟩, stats⟩
  obtain rfl : type = t := type_eq
  refine ⟨item, rfl, ?_⟩
  rw [runWith, Call.bind_of_ok ran]
  simp only [Tagged.expect_mk, pure_bind]
  rfl

theorem runWith_panicsOnly (options : RunOptions) :
    (computation.runWith options).PanicsOnly fun reason => raised reason ∨
      ¬ Machine.RoomFor options.stackCapacity ∧ reason = .text "capacity overflow" := by
  intro before reason after ran
  rcases Call.bind_eq_some_iff.mp ran with
    ⟨_, panicked, same⟩ | ⟨error | completed, between, returned, answered⟩
  · cases same
    exact Graph.runWith_panicsOnly assembly.sound (Known.member is_member) options panicked
  · cases answered
  · rcases assembly.runWith_of_ran is_member returned with ⟨item, _, answered⟩
    cases answered.symm.trans ran

end Assembly

end Deferred

end Deferral

import Deferral.Proofs.Concurrent.Agreed
import Deferral.Proofs.Repeated.Polls

/-!
# A repetition and the binds it stands for

A repetition could be written out: a bind of the body in a bind of the body, with the items
collected at the end. It is driven from inside a leaf, and the binds by the run itself, so the two
have quite different states. Apart from what they report, nobody who polls them can tell one from
the other.
-/

namespace Deferral

/-- Worlds that differ at most in what was reported are the same. -/
structure Inaudible {σ V : Type} [Host σ V] (same : σ → σ → Prop) : Prop where
  equivalence : Equivalence same
  emit : ∀ event world, same (Host.emit event world) world

namespace Inaudible

variable {σ V : Type} [Host σ V] {same : σ → σ → Prop} {before before' : σ}

theorem symm (inaudible : Inaudible same) (worlds : same before before') : same before' before :=
  inaudible.equivalence.symm worlds

/-- Where nobody listens, every world is the same only as itself. -/
theorem eq (deaf : ∀ event (world : σ), Host.emit event world = world) :
    Inaudible (Eq : σ → σ → Prop) :=
  ⟨⟨fun _ => rfl, Eq.symm, Eq.trans⟩, deaf⟩

theorem emit_left (inaudible : Inaudible same) (event : Event) (worlds : same before before') :
    same (Host.emit event before) before' :=
  inaudible.equivalence.trans (inaudible.emit event before) worlds

theorem of_emit_right (inaudible : Inaudible same) {event : Event}
    (worlds : same before (Host.emit event before')) : same before before' :=
  inaudible.equivalence.trans worlds (inaudible.emit event before')

theorem emit_both (inaudible : Inaudible same) (event event' : Event)
    (worlds : same before before') : same (Host.emit event before) (Host.emit event' before') := by
  apply inaudible.emit_left event
  exact inaudible.symm (inaudible.emit_left event' (inaudible.symm worlds))

theorem keptByEvents (inaudible : Inaudible same) : KeptByEvents same := by
  intro event before before' worlds
  exact inaudible.emit_both event event worlds

end Inaudible

namespace AsyncGraph

variable {σ V ρ α : Type}

/-- The runs of a repetition that are left, as binds. The items so far are known, the last one
first. -/
def chained (body : AsyncGraph σ V ρ) (accept : V → Call σ α) (collect : List α → V) :
    Nat → List α → AsyncGraph σ V ρ
  | 0, items => Graph.of (collect items.reverse)
  | left + 1, items => Graph.flatMap body fun value => do
    let item ← accept value
    return chained body accept collect left (item :: items)

/-- What waits for the value of a run when so many are left after it. -/
def nextLink (body : AsyncGraph σ V ρ) (accept : V → Call σ α) (collect : List α → V) (left : Nat)
    (items : List α) : Graph.Continuation σ (Future σ V ρ) V ρ := fun value => do
  let item ← accept value
  return chained body accept collect left (item :: items)

variable [Host σ V] [Equations ρ σ (Future σ V ρ) V]

/-- A repetition and its binds between two polls. Both are in the same place of the same run. -/
inductive Unrolled (same : σ → σ → Prop) (body : AsyncGraph σ V ρ) (accept : V → Call σ α)
    (collect : List α → V) (count : Nat) : Future σ V ρ → Future σ V ρ → Prop
  | start (le : count ≤ mostItems) : Unrolled same body accept collect count
      (.ofGraph (body.repeatedWith accept collect count))
      (.ofGraph (body.chained accept collect count []))
  | inside (left : Nat) (items : List α) (mark : Nat) {inner inner' : Future σ V ρ}
      (agree : FuturesAgree same inner inner') (running : inner'.IsRun) :
      Unrolled same body accept collect count
        (inTurn body accept collect count left items inner)
        (inner'.above ((Pending.empty.raise mark).push (body.nextLink accept collect left items)))

variable {same : σ → σ → Prop} {body : AsyncGraph σ V ρ} {accept : V → Call σ α}
  {collect : List α → V} {count : Nat} {before before' : σ}

section Polls

variable (inaudible : Inaudible same)
  (accepts : ∀ value {before before'}, same before before' →
    Agreed same Eq (accept value before) (accept value before'))

include inaudible accepts

/-- In the middle of a run both polls are polls of that run, and go on alike when it is over. -/
theorem agreed_inside {left : Nat} {items : List α} {inner inner' : Future σ V ρ} (mark : Nat)
    (between : ∀ item mark {before before'}, same before before' →
      Agreed same (PollAlike (Unrolled same body accept collect count))
        ((betweenTurns body accept collect count left (item :: items)).poll before)
        ((Future.visit (body.chained accept collect left (item :: items))
          (Pending.empty.raise mark)).poll before'))
    (agree : FuturesAgree same inner inner') (running : inner'.IsRun)
    (worlds : same before before') :
    Agreed same (PollAlike (Unrolled same body accept collect count))
      ((inTurn body accept collect count left items inner).poll before)
      ((inner'.above ((Pending.empty.raise mark).push
        (body.nextLink accept collect left items))).poll before') := by
  have polls := agree.polls worlds
  rw [poll_inTurn]
  generalize polled : inner.poll before = answer at polls
  generalize polled' : inner'.poll before' = answer' at polls
  cases polls with
  | hangs =>
      rw [Call.bind_of_none polled, running.poll_above_of_none polled']
      exact .hangs
  | panicked worlds =>
      rw [Call.bind_of_error polled, running.poll_above_of_error polled']
      exact .panicked worlds
  | returned worlds values =>
      rw [Call.bind_of_ok polled]
      cases values with
      | pending rests =>
          rcases running.poll_above_of_pending polled' ((Pending.empty.raise mark).push _) with
            ⟨running_rest, above_polled⟩
          rw [above_polled]
          exact .returned worlds (.pending (.inside left items mark rests running_rest))
      | ready value =>
          rcases running.poll_above_of_ready polled' ((Pending.empty.raise mark).push _) with
            ⟨peak, here, rfl, above_polled⟩
          rw [above_polled, Future.deliver, Pending.pop?_raise_push, Pending.raise_raise]
          simp only [afterTurnPoll, nextLink, bind_assoc, pure_bind]
          apply (accepts value (inaudible.of_emit_right worlds)).bind
          rintro item _ after after' rfl worlds
          exact between item _ worlds

theorem agreed_between (blind : body.Blind same) (left : Nat) (items : List α) (mark : Nat)
    (worlds : same before before') :
    Agreed same (PollAlike (Unrolled same body accept collect count))
      ((betweenTurns body accept collect count left items).poll before)
      ((Future.visit (body.chained accept collect left items)
        (Pending.empty.raise mark)).poll before') := by
  -- What follows the next run is one run shorter, so `agreed_inside` is told it by the induction.
  induction left generalizing items mark before before' with
  | zero =>
      have shape_eq : (body.chained accept collect 0 items).shape =
        .leaf (pure (.ready (collect items.reverse))) := by
        simp [chained, Graph.of, Graph.fromThunk, Immediate.ready]
      have concludes : (betweenTurns body accept collect count 0 items).Concludes
        (collect items.reverse) 0 := .last _ rfl
      rw [Future.poll_visit_of_leaf shape_eq, pure_bind, concludes.poll,
        (Future.Concludes.last (collect items.reverse) rfl).poll]
      exact .returned (inaudible.emit_both _ _ worlds) (.ready _)
  | succ left ih =>
      have shape_eq : (body.chained accept collect (left + 1) items).shape =
        .bind body (body.nextLink accept collect left items) := rfl
      rw [Future.poll_visit_of_bind shape_eq, Future.poll_eq_step,
        Call.bind_of_ok (step_betweenTurns_succ items), Future.afterStep,
        ← Future.ofGraph_above body (Pending.depth_le_peak_push _ _)]
      apply agreed_inside inaudible accepts mark
      · intro item mark before before' worlds
        exact ih (item :: items) mark worlds
      · exact blind.agrees inaudible.symm inaudible.keptByEvents
      · exact Future.isRun_ofGraph body
      · exact inaudible.emit_left _ worlds

theorem repeated_agrees_chained (blind : body.Blind same) (collect : List α → V)
    (le : count ≤ mostItems) :
    FuturesAgree same (Future.ofGraph (body.repeatedWith accept collect count))
      (.ofGraph (body.chained accept collect count [])) := by
  refine ⟨Unrolled same body accept collect count, ?_, .start le⟩
  intro first second unrolled before before' worlds
  cases unrolled with
  | start le =>
      rw [Future.poll_eq_step, step_repeatedWith le, pure_bind, Future.afterStep]
      exact agreed_between inaudible accepts blind count [] 0 worlds
  | inside left items mark agree running =>
      apply agreed_inside inaudible accepts mark ?_ agree running worlds
      intro item mark before before' worlds
      exact agreed_between inaudible accepts blind left (item :: items) mark worlds

end Polls

end AsyncGraph

end Deferral

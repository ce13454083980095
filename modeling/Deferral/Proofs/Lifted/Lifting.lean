import Deferral.Proofs.Lifted.Meaning
import Deferral.Proofs.Lifted.Polls

/-!
# Lifting whole graphs and lifting them piece by piece

A computation can be lifted into an asynchronous one as a whole, which is a leaf that runs it, or
piece by piece, with a bind for a bind and a leaf for each of the parts. `Lifted` says what may come
of it. A run of the whole is one synchronous interpretation inside of an asynchronous leaf; piece by
piece there is an interpretation for each part, and the continuations between them wait in the
asynchronous run.

What is proved by induction on the pieces holds above any stack: to visit a lifted graph is to do
what the computation does and to hand its value on. The mark of the stack is all that the pieces
change.
-/

namespace Deferral

variable {ι σ ρ η : Type} {Base : ι → Type} [DecidableEq ι] [Host σ (Tagged Base)]
  [Definitions Base ρ σ]

/-- What comes of lifting a computation, as a whole or in pieces of any size. Each graph that the
function of a bind answers with may be lifted in a way of its own. -/
inductive Lifted (same : σ → σ → Prop) :
    {t : Ty ι} → Deferred Base σ ρ t → AsyncDeferred Base σ η t → Prop
  | whole {t : Ty ι} {computation : Deferred Base σ ρ t} (blind : computation.meaning.Blind same) :
      Lifted same computation (.fromDeferred computation)
  | fromThunk {t : Ty ι} {produce : Call σ (t.Value Base)} (blind : produce.Blind same) :
      Lifted same (.fromThunk produce) (.fromThunk produce)
  | flatMap {s t : Ty ι} {first : Deferred Base σ ρ s} {lifting : AsyncDeferred Base σ η s}
      {function : s.Value Base → Call σ (Deferred Base σ ρ t)}
      {lift : s.Value Base → Deferred Base σ ρ t → AsyncDeferred Base σ η t}
      (firsts : Lifted same first lifting) (blind : ∀ value, (function value).Blind same)
      (nexts : ∀ value next before after, function value before = some (.ok next, after) →
        Lifted same next (lift value next)) :
      Lifted same (first.flatMap function)
        (lifting.flatMap fun value => lift value <$> function value)

namespace Lifted

variable {same : σ → σ → Prop} {t : Ty ι} {computation : Deferred Base σ ρ t}
  {lifting other : AsyncDeferred Base σ η t} {before before' : σ}

/-- Nothing that is lifted can tell worlds apart that are the same. -/
theorem blind (lifted : Lifted same computation lifting) : computation.meaning.Blind same := by
  induction lifted with
  | whole blind => exact blind
  | fromThunk blind =>
      rw [Deferred.meaning_fromThunk]
      exact blind
  | flatMap _ blind _ first_blind nexts_blind =>
      intro before before' worlds
      rw [Deferred.meaning_flatMap]
      apply (first_blind worlds).bind
      rintro value _ after after' rfl worlds
      apply (blind value worlds).returns.bind
      rintro next _ called called' ⟨rfl, _, function_eq⟩ worlds
      exact nexts_blind value next _ _ function_eq worlds

variable [AsyncDefinitions Base η σ]

/-- To visit a lifted graph is to do what the computation does and to hand on its value. -/
theorem visit {δ : Type} {related : Poll (Tagged Base) (Future σ (Tagged Base) η) → δ → Prop}
    (inaudible : Inaudible same) (lifted : Lifted same computation lifting)
    {waiting : List (Graph.Continuation σ (Future σ (Tagged Base) η) (Tagged Base) η)}
    {depth : Nat} {next : t.Value Base → Call σ δ}
    (hands : ∀ peak value after after', same after after' →
      Agreed same related (Future.hand Future.poll ⟨t, value⟩ ⟨waiting, depth, peak⟩ after)
        (next value after'))
    (peak : Nat) (worlds : same before before') :
    Agreed same related ((Future.visit lifting.graph ⟨waiting, depth, peak⟩).poll before)
      ((computation.meaning >>= next) before') := by
  induction lifted generalizing waiting depth peak before before' with
  | whole blind =>
      rw [AsyncDeferred.fromDeferred, AsyncDeferred.poll_visit_fromThunk]
      apply (Deferred.run_agrees inaudible blind worlds).bind
      rintro value _ after after' rfl worlds
      exact hands peak value after after' worlds
  | fromThunk blind =>
      rw [AsyncDeferred.poll_visit_fromThunk, Deferred.meaning_fromThunk]
      apply (blind worlds).bind
      rintro value _ after after' rfl worlds
      exact hands peak value after after' worlds
  | @flatMap s t first lifting function lift _ blind _ first_visit next_visit =>
      rw [AsyncDeferred.poll_visit_flatMap, Deferred.meaning_flatMap, bind_assoc]
      -- The bind waits for the value of the first part, above what waited before.
      apply first_visit _ _ worlds
      intro mark value after after' worlds
      rw [AsyncDeferred.hand_checked, bind_map_left, bind_assoc]
      apply (blind value worlds).returns.bind
      rintro answer _ called called' ⟨rfl, _, function_eq⟩ worlds
      exact next_visit value answer _ _ function_eq hands mark worlds

/-- The first poll has the value, or panics, or does not return, as the computation does. -/
theorem poll_agrees_meaning (inaudible : Inaudible same) (lifted : Lifted same computation lifting)
    (worlds : same before before') :
    Agreed same (fun polled value => polled = .ready ⟨t, value⟩)
      (lifting.run.future.poll before) (computation.meaning before') := by
  have hands : ∀ peak value after after', same after after' →
      Agreed same (fun polled value => polled = .ready ⟨t, value⟩)
        ((Future.hand Future.poll ⟨t, value⟩ ⟨[], 0, peak⟩ :
          Call σ (Poll (Tagged Base) (Future σ (Tagged Base) η))) after)
        ((pure value : Call σ (t.Value Base)) after') := by
    intro peak value after after' worlds
    exact .returned (inaudible.emit_left _ worlds) rfl
  have visited := lifted.visit inaudible hands 0 worlds
  rw [bind_pure] at visited
  exact visited

theorem poll_agrees_run (inaudible : Inaudible same) (lifted : Lifted same computation lifting)
    (worlds : same before before') :
    Agreed same (fun polled value => polled = .ready ⟨t, value⟩)
      (lifting.run.future.poll before) (computation.run before') := by
  have polled := lifted.poll_agrees_meaning inaudible worlds
  have ran := Deferred.run_agrees inaudible lifted.blind (inaudible.equivalence.refl before')
  apply (polled.trans inaudible.equivalence (ran.symm inaudible.equivalence)).mono
  rintro answer value ⟨_, rfl, rfl⟩
  rfl

/-- Whatever comes of lifting a computation, nobody can tell by polling. -/
theorem futuresAgree (inaudible : Inaudible same) (lifted : Lifted same computation lifting)
    (lifted' : Lifted same computation other) :
    FuturesAgree same lifting.run.future other.run.future := by
  refine ⟨fun first second => first = lifting.run.future ∧ second = other.run.future, ?_, rfl, rfl⟩
  rintro _ _ ⟨rfl, rfl⟩ before before' worlds
  have polled := lifted.poll_agrees_meaning inaudible worlds
  have polled' := lifted'.poll_agrees_meaning inaudible (inaudible.equivalence.refl before')
  apply (polled.trans inaudible.equivalence (polled'.symm inaudible.equivalence)).mono
  rintro answer answer' ⟨value, rfl, rfl⟩
  exact .ready _

end Lifted

end Deferral

import Deferral.Proofs.PollByPoll.MonadLaws
import Deferral.Proofs.Typed.Drive
import Deferral.Typed.AsyncDeferred

/-!
# Polls of lifted computations

A lifted computation is a leaf that runs it, so its run has the value in the first poll. These are
equations of calls: a poll makes the calls of the run of each part, one after the other, with the
reports of each run, and reports its own end.
-/

namespace Deferral.AsyncDeferred

variable {ι σ ρ η : Type} {Base : ι → Type} {s t : Ty ι} [DecidableEq ι] [Host σ (Tagged Base)]
  [Definitions Base ρ σ] [AsyncDefinitions Base η σ]

/-- A leaf that has its value hands it on in the same poll. -/
theorem poll_visit_fromThunk (produce : Call σ (t.Value Base))
    (pending : Pending (Graph.Continuation σ (Future σ (Tagged Base) η) (Tagged Base) η)) :
    (Future.visit (fromThunk produce : AsyncDeferred Base σ η t).graph pending).poll = (do
      let value ← produce
      Future.hand Future.poll ⟨t, value⟩ pending) := by
  have shape_eq : (fromThunk produce : AsyncDeferred Base σ η t).graph.shape =
      .leaf (Immediate.ready <$> Deferred.tagged produce) := rfl
  rw [Future.poll_visit_of_leaf shape_eq]
  simp only [Deferred.tagged, map_eq_pure_bind, bind_assoc, pure_bind]
  exact bind_congr fun value => Future.poll_await_ready _ pending

theorem poll_visit_flatMap (first : AsyncDeferred Base σ η s)
    (function : s.Value Base → Call σ (AsyncDeferred Base σ η t))
    (waiting : List (Graph.Continuation σ (Future σ (Tagged Base) η) (Tagged Base) η))
    (depth peak : Nat) :
    (Future.visit (first.flatMap function).graph ⟨waiting, depth, peak⟩).poll =
      (Future.visit first.graph
        ⟨checked function :: waiting, depth + 1, max peak (depth + 1)⟩).poll :=
  Future.poll_visit_of_bind (Graph.shape_flatMap _ _) _

/-- The function that waits gets the value, and what it answers is visited next. -/
theorem hand_checked (function : s.Value Base → Call σ (AsyncDeferred Base σ η t))
    (value : s.Value Base)
    (waiting : List (Graph.Continuation σ (Future σ (Tagged Base) η) (Tagged Base) η))
    (depth peak : Nat) :
    Future.hand Future.poll ⟨s, value⟩ ⟨checked function :: waiting, depth + 1, peak⟩ = (do
      let next ← function value
      (Future.visit next.graph ⟨waiting, depth, peak⟩).poll) := by
  simp only [Future.hand, Pending.pop?, checked, Tagged.expect_mk, pure_bind, bind_assoc,
    Nat.add_sub_cancel]

theorem hand_empty (value : Tagged Base) (depth peak : Nat) :
    (Future.hand Future.poll value ⟨[], depth, peak⟩ :
        Call σ (Poll (Tagged Base) (Future σ (Tagged Base) η))) = (do
      Host.report (.asyncFinished peak)
      return .ready value) := rfl

theorem poll_fromThunk (produce : Call σ (t.Value Base)) :
    (fromThunk produce : AsyncDeferred Base σ η t).run.future.poll = (do
      let value ← produce
      Host.report (.asyncFinished 0)
      return .ready ⟨t, value⟩) :=
  poll_visit_fromThunk produce .empty

theorem poll_fromDeferred (computation : Deferred Base σ ρ t) :
    (fromDeferred computation : AsyncDeferred Base σ η t).run.future.poll = (do
      let value ← computation.run
      Host.report (.asyncFinished 0)
      return .ready ⟨t, value⟩) :=
  poll_fromThunk computation.run

/-- Besides what the leaf does by itself, a lifted leaf reports the run of one leaf. -/
theorem poll_fromDeferred_of (value : t.Value Base) :
    (fromDeferred (.of value : Deferred Base σ ρ t) : AsyncDeferred Base σ η t).run.future.poll =
      (do
        Host.report (.started none)
        Host.report (.finished ⟨1, 0⟩)
        (of value : AsyncDeferred Base σ η t).run.future.poll) := by
  rw [poll_fromDeferred, Deferred.run_eq_drive, Deferred.start_of_drive, of, poll_fromThunk]
  simp only [bind_assoc, pure_bind, Tagged.expect_mk]
  rfl

/-- A bind of lifted computations runs both in one poll. -/
theorem poll_flatMap_fromDeferred (first : Deferred Base σ ρ s)
    (function : s.Value Base → Call σ (Deferred Base σ ρ t)) :
    ((fromDeferred first : AsyncDeferred Base σ η s).flatMap fun value =>
        fromDeferred <$> function value).run.future.poll = (do
      let fed ← first.run
      let next ← function fed
      let value ← next.run
      Host.report (.asyncFinished 1)
      return .ready ⟨t, value⟩) := by
  refine (poll_visit_flatMap _ _ [] 0 0).trans ?_
  rw [fromDeferred, poll_visit_fromThunk]
  refine bind_congr fun fed => ?_
  rw [hand_checked]
  simp only [bind_map_left, fromDeferred, poll_visit_fromThunk, hand_empty]
  rfl

end Deferral.AsyncDeferred

import Deferral.Proofs.Repeated.Chained
import Deferral.Proofs.Typed.Drive

/-!
# Runs apart from their reports

`Deferred.meaning` is what a run does between its two reports. The meaning of a bind is made of
those of its parts and of nothing else, while a run of the whole and runs of the parts report at
different times. Where worlds that differ in what was reported count as the same, a run agrees with
its meaning.
-/

namespace Deferral

variable {σ α β γ : Type} {same : σ → σ → Prop}

/-- A call that does the same in worlds that are the same. -/
def Call.Blind (same : σ → σ → Prop) (call : Call σ α) : Prop :=
  ∀ ⦃before before'⦄, same before before' → Agreed same Eq (call before) (call before')

namespace Call.Blind

/-- Every call does the same in one world. -/
theorem eq (call : Call σ α) : call.Blind Eq := by
  rintro before _ rfl
  rcases call before with _ | ⟨reason | value, after⟩
  · exact .hangs
  · exact .panicked rfl
  · exact .returned rfl rfl

theorem pure (value : α) : (Pure.pure value : Call σ α).Blind same :=
  fun _ _ worlds => .returned worlds rfl

end Call.Blind

namespace Deferred

variable {ι ρ : Type} {Base : ι → Type} {s t : Ty ι} [DecidableEq ι] [Definitions Base ρ σ]

/-- What a run does between its two reports. -/
def meaning (computation : Deferred Base σ ρ t) : Call σ (t.Value Base) := do
  (← computation.graph.eval).expect mismatch t

theorem meaning_fromThunk (produce : Call σ (t.Value Base)) :
    (fromThunk produce : Deferred Base σ ρ t).meaning = produce := by
  have shape_eq : (fromThunk produce : Deferred Base σ ρ t).graph.shape = .leaf (tagged produce) :=
    congrArg Shape.leaf (id_map _)
  rw [meaning, Graph.eval_of_leaf shape_eq, tagged]
  simp only [bind_assoc, pure_bind, Tagged.expect_mk, bind_pure]

theorem meaning_of_blind (value : t.Value Base) :
    (of value : Deferred Base σ ρ t).meaning.Blind same := by
  rw [of, meaning_fromThunk]
  exact .pure value

theorem meaning_flatMap (first : Deferred Base σ ρ s)
    (function : s.Value Base → Call σ (Deferred Base σ ρ t)) :
    (first.flatMap function).meaning = (do
      let fed ← first.meaning
      let next ← function fed
      next.meaning) := by
  rw [meaning, flatMap, Graph.eval_of_bind (Graph.shape_flatMap _ _)]
  simp only [checked, meaning, bind_assoc, pure_bind]

variable [Host σ (Tagged Base)]

/-- Apart from what is reported, a run is its meaning. -/
theorem run_agrees_meaning (inaudible : Inaudible same) (computation : Deferred Base σ ρ t)
    (before : σ) :
    Agreed same Eq (computation.run before) (computation.meaning (Graph.begun none before)) := by
  have refl := inaudible.equivalence.refl
  rw [run_eq_drive, Graph.bind_report, ← Graph.begun, meaning, ← Graph.fst_measured,
    ← Machine.drive_start, bind_map_left]
  rcases driven : (Machine.start computation.graph).drive (Graph.begun none before) with
    _ | ⟨reason | ⟨value, size⟩, after⟩
  · rw [Call.bind_of_none driven, Call.bind_of_none driven]
    exact .hangs
  · rw [Call.bind_of_error driven, Call.bind_of_error driven]
    exact .panicked (refl after)
  · rw [Call.bind_of_ok driven, Call.bind_of_ok driven]
    simp only [Graph.bind_report]
    rw [Tagged.expect]
    cases value.as? t with
    | none => exact .panicked (inaudible.emit _ _)
    | some found => exact .returned (inaudible.emit _ _) rfl

/-- A run agrees with the meaning in every world that is the same. -/
theorem run_agrees (inaudible : Inaudible same) {computation : Deferred Base σ ρ t}
    (blind : computation.meaning.Blind same) {before before' : σ} (worlds : same before before') :
    Agreed same Eq (computation.run before) (computation.meaning before') := by
  have begun := inaudible.emit_left (.started none) worlds
  apply ((run_agrees_meaning inaudible computation before).trans inaudible.equivalence
    (blind begun)).mono
  rintro value value' ⟨_, rfl, rfl⟩
  rfl

end Deferred

end Deferral

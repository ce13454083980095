import Deferral.Proofs.Run.Halts

/-!
# What an answer tells about the visits

A run that answers has made a number of visits, and a machine in a world makes its visits in one way
only. So the answer of a run can be read backwards: a value tells the number of visits and the depth
of the stack in them, and an error tells that the limit was spent.
-/

namespace Deferral

namespace Machine

variable {σ V ρ : Type} [Equations ρ σ V V]
variable {visits more : Nat} {machine next last : Machine σ V ρ} {before between after : σ}

/-- So many visits lead to one machine in one world. -/
theorem Reaches.unique {last' : Machine σ V ρ} {after' : σ}
    (reaches : Reaches visits machine before last after)
    (reaches' : Reaches visits machine before last' after') : last = last' ∧ after = after' := by
  induction reaches with
  | start =>
      cases reaches'
      exact ⟨rfl, rfl⟩
  | visit moved _ ih =>
      cases reaches' with
      | visit moved' rest =>
          rw [moved] at moved'
          cases moved'
          exact ih rest

/-- What is left of a run that goes on for more visits goes on for these. -/
theorem Reaches.rest (longer : Reaches (visits + more) machine before last after)
    (reaches : Reaches visits machine before next between) :
    Reaches more next between last after := by
  induction reaches with
  | start machine world => simpa using longer
  | visit moved _ ih =>
      rw [Nat.add_right_comm] at longer
      cases longer with
      | visit moved' rest =>
          rw [moved] at moved'
          cases moved'
          exact ih rest

/-- What is left of a run that ends. -/
theorem Ends.rest {ending : Except Panic (V × RunStats)}
    (ends : Ends visits machine before ending after)
    (reaches : Reaches more machine before next between) :
    ∃ left, visits = more + (left + 1) ∧ Ends (left + 1) next between ending after := by
  induction reaches generalizing visits with
  | start machine world =>
      rcases ends.exists_last with ⟨left, _, _, rfl, _⟩
      exact ⟨left, (Nat.zero_add _).symm, ends⟩
  | visit moved rest ih =>
      cases ends with
      | finished finished => simp [finished] at moved
      | panicked panicked => simp [panicked] at moved
      | visit moved' later =>
          rw [moved] at moved'
          cases moved'
          rcases ih later with ⟨left, rfl, left_ends⟩
          exact ⟨left, by omega, left_ends⟩

/-- The last of several visits. -/
theorem Reaches.exists_last (reaches : Reaches (visits + 1) machine before last after) :
    ∃ middle world, Reaches visits machine before middle world ∧
      middle.visit world = some (.ok (.moved last), after) := by
  rcases reaches.exists_of_le (Nat.le_succ visits) with ⟨middle, world, prior⟩
  have final := reaches.rest prior
  cases final with
  | visit moved none_left =>
      cases none_left
      exact ⟨middle, world, prior, moved⟩

/-- The mark that a run reports is the largest number of continuations that waited before its last
visit, in which none is let wait any more. -/
theorem Ends.peak_isGreatest {graph : Graph σ V V ρ} {value : V} {stats : RunStats}
    (ends : Ends (visits + 1) (start graph) before (.ok (value, stats)) after) :
    IsGreatest (depths visits (start graph) before) stats.peakStackDepth := by
  rcases ends.exists_last with ⟨fewer, last, between, visits_eq, reaches, finished⟩
  obtain rfl := Nat.succ.inj visits_eq
  have ended := (visits_iff _ _ _ _).mp finished
  cases ended with
  | finishes shape_eq produced popped => exact reaches.peak_isGreatest

end Machine

namespace Graph

variable {σ V ρ : Type} [Host σ V] [Equations ρ σ V V]
variable {graph : Graph σ V V ρ} {world last : σ} {value : V} {stats : RunStats}

/-- A value comes from a run that has it in the visit whose number is reported. -/
theorem ends_of_runWith {options : RunOptions}
    (ran : graph.runWith options world = some (.ok (.ok ⟨value, stats⟩), last)) :
    ∃ after, Machine.Ends stats.steps (Machine.start graph)
        (begun options.stepLimit world) (.ok (value, stats)) after ∧
      last = Host.emit (.finished stats) after := by
  rcases halts_or_refused ran with ⟨_, ending, after, halts, answer_eq, rfl⟩ | ⟨_, refused, _⟩
  · cases halts with
    | finishes reaches _ _ finished =>
        cases answer_eq
        exact ⟨after, reaches.ends (.finished finished), rfl⟩
    | panics | stops => cases answer_eq
  · cases refused

/-- An error comes from a run that has spent its limit. -/
theorem reaches_of_runWith {options : RunOptions} {error : RunError}
    (ran : graph.runWith options world = some (.ok (.error error), last)) :
    ∃ limit cut between, options.stepLimit = some limit ∧
      Machine.Reaches limit.toNat (Machine.start graph)
        (begun (some limit) world) cut between ∧
      error = .stepLimitExceeded limit ⟨limit.toNat, cut.pending.peak⟩ ∧
      last = Host.emit (.limitReached ⟨limit.toNat, cut.pending.peak⟩ cut.pending.waiting.length)
        between := by
  rcases halts_or_refused ran with ⟨_, ending, between, halts, answer_eq, rfl⟩ | ⟨_, refused, _⟩
  · cases halts with
    | finishes | panics => cases answer_eq
    | @stops limit peak cut _ limit_eq reaches deepest =>
        obtain rfl : cut.pending.peak = peak := reaches.peak_isGreatest.unique deepest
        cases answer_eq
        rw [limit_eq] at reaches ⊢
        exact ⟨limit, cut, between, rfl, reaches, rfl, rfl⟩
  · cases refused

end Graph

end Deferral

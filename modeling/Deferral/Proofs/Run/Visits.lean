import Deferral.Proofs.Call
import Deferral.Run.Machine

/-!
# Runs as sequences of visits

A run is told visit by visit here: `Machine.Visits` lists everything that one visit can do,
`Machine.Reaches` leads from a machine to the one that is left after a number of visits, and
`Machine.Ends` is a run whose last visit has a given number. The loops of the library are then
characterised by these relations, and what a run keeps is proved by what one visit keeps.

A run that never ends either makes visit after visit, or makes a call in one of its visits that does
not return.
-/

namespace Deferral.Machine

variable {σ V ρ : Type} [Equations ρ σ V V]

theorem visit_of_leaf {machine : Machine σ V ρ} {produce : Call σ V}
    (shape_eq : machine.current.shape = .leaf produce) :
    machine.visit = (do
      let value ← produce
      match machine.pending.pop? with
      | none => return .finished value ⟨machine.steps + 1, machine.pending.peak⟩
      | some (resume, pending) =>
        let next ← resume value
        return .moved ⟨next, pending, machine.steps + 1⟩) := by
  unfold visit
  split
  · rename_i found found_eq
    cases found_eq.symm.trans shape_eq
    rfl
  · rename_i found_eq
    cases found_eq.symm.trans shape_eq

theorem visit_of_bind {machine : Machine σ V ρ} {predecessor : Graph σ V V ρ}
    {resume : Graph.Continuation σ V V ρ}
    (shape_eq : machine.current.shape = .bind predecessor resume) :
    machine.visit =
      pure (.moved ⟨predecessor, machine.pending.push resume, machine.steps + 1⟩) := by
  unfold visit
  rw [shape_eq]

/-- Everything that one visit can do. -/
inductive Visits (machine : Machine σ V ρ) : σ → Except Panic (Visited σ V ρ) → σ → Prop
  | descends {predecessor : Graph σ V V ρ} {resume : Graph.Continuation σ V V ρ} {before : σ}
      (shape_eq : machine.current.shape = .bind predecessor resume) :
      Visits machine before
        (.ok (.moved ⟨predecessor, machine.pending.push resume, machine.steps + 1⟩)) before
  | producerPanics {produce : Call σ V} {before after : σ} {reason : Panic}
      (shape_eq : machine.current.shape = .leaf produce)
      (produced : produce before = some (.error reason, after)) :
      Visits machine before (.error reason) after
  | finishes {produce : Call σ V} {before after : σ} {value : V}
      (shape_eq : machine.current.shape = .leaf produce)
      (produced : produce before = some (.ok value, after))
      (popped : machine.pending.pop? = none) :
      Visits machine before (.ok (.finished value ⟨machine.steps + 1, machine.pending.peak⟩)) after
  | continuationPanics {produce : Call σ V} {resume : Graph.Continuation σ V V ρ}
      {pending : Pending (Graph.Continuation σ V V ρ)} {before between after : σ} {value : V}
      {reason : Panic} (shape_eq : machine.current.shape = .leaf produce)
      (produced : produce before = some (.ok value, between))
      (popped : machine.pending.pop? = some (resume, pending))
      (resumed : resume value between = some (.error reason, after)) :
      Visits machine before (.error reason) after
  | resumes {produce : Call σ V} {resume : Graph.Continuation σ V V ρ} {next : Graph σ V V ρ}
      {pending : Pending (Graph.Continuation σ V V ρ)} {before between after : σ} {value : V}
      (shape_eq : machine.current.shape = .leaf produce)
      (produced : produce before = some (.ok value, between))
      (popped : machine.pending.pop? = some (resume, pending))
      (resumed : resume value between = some (.ok next, after)) :
      Visits machine before (.ok (.moved ⟨next, pending, machine.steps + 1⟩)) after

theorem visits_iff (machine : Machine σ V ρ) (before after : σ)
    (ending : Except Panic (Visited σ V ρ)) :
    machine.visit before = some (ending, after) ↔ machine.Visits before ending after := by
  constructor
  · intro visited
    rcases shape_eq : machine.current.shape with produce | ⟨predecessor, resume⟩
    · rw [visit_of_leaf shape_eq] at visited
      rcases Call.bind_eq_some_iff.mp visited with
        ⟨reason, produced, rfl⟩ | ⟨value, between, produced, visited⟩
      · exact .producerPanics shape_eq produced
      · rcases popped : machine.pending.pop? with _ | ⟨resume, pending⟩
        · simp only [popped, Call.pure_apply, Option.some.injEq, Prod.mk.injEq] at visited
          rcases visited with ⟨rfl, rfl⟩
          exact .finishes shape_eq produced popped
        · rw [popped] at visited
          rcases Call.bind_eq_some_iff.mp visited with
            ⟨reason, resumed, rfl⟩ | ⟨next, last, resumed, visited⟩
          · exact .continuationPanics shape_eq produced popped resumed
          · simp only [Call.pure_apply, Option.some.injEq, Prod.mk.injEq] at visited
            rcases visited with ⟨rfl, rfl⟩
            exact .resumes shape_eq produced popped resumed
    · rw [visit_of_bind shape_eq] at visited
      simp only [Call.pure_apply, Option.some.injEq, Prod.mk.injEq] at visited
      rcases visited with ⟨rfl, rfl⟩
      exact .descends shape_eq
  · intro visits
    cases visits with
    | descends shape_eq => rw [visit_of_bind shape_eq, Call.pure_apply]
    | producerPanics shape_eq produced =>
        rw [visit_of_leaf shape_eq, Call.bind_of_error produced]
    | finishes shape_eq produced popped =>
        rw [visit_of_leaf shape_eq, Call.bind_of_ok produced, popped]
        rfl
    | continuationPanics shape_eq produced popped resumed =>
        rw [visit_of_leaf shape_eq, Call.bind_of_ok produced, popped]
        exact Call.bind_of_error resumed
    | resumes shape_eq produced popped resumed =>
        rw [visit_of_leaf shape_eq, Call.bind_of_ok produced, popped]
        exact Call.bind_of_ok resumed

section Loops

variable {machine next : Machine σ V ρ} {before between : σ}

theorem drive_of_moved (moved : machine.visit before = some (.ok (.moved next), between)) :
    machine.drive before = next.drive between := by
  rw [drive]
  exact Call.bind_of_ok moved

theorem drive_of_finished {value : V} {stats : RunStats}
    (finished : machine.visit before = some (.ok (.finished value stats), between)) :
    machine.drive before = some (.ok (value, stats), between) := by
  rw [drive]
  exact Call.bind_of_ok finished

theorem drive_of_panicked {reason : Panic}
    (panicked : machine.visit before = some (.error reason, between)) :
    machine.drive before = some (.error reason, between) := by
  rw [drive]
  exact Call.bind_of_error panicked

theorem driveWithin_of_moved {allowed : Nat}
    (moved : machine.visit before = some (.ok (.moved next), between)) :
    machine.driveWithin (allowed + 1) before = next.driveWithin allowed between :=
  Call.bind_of_ok moved

theorem driveWithin_of_finished {allowed : Nat} {value : V} {stats : RunStats}
    (finished : machine.visit before = some (.ok (.finished value stats), between)) :
    machine.driveWithin (allowed + 1) before = some (.ok (.finished value stats), between) :=
  Call.bind_of_ok finished

theorem driveWithin_of_panicked {allowed : Nat} {reason : Panic}
    (panicked : machine.visit before = some (.error reason, between)) :
    machine.driveWithin (allowed + 1) before = some (.error reason, between) :=
  Call.bind_of_error panicked

end Loops

/-- So many visits lead from one machine in one world to another machine in another world. -/
inductive Reaches : Nat → Machine σ V ρ → σ → Machine σ V ρ → σ → Prop
  | start (machine : Machine σ V ρ) (world : σ) : Reaches 0 machine world machine world
  | visit {visits : Nat} {machine next last : Machine σ V ρ} {before between after : σ}
      (moved : machine.visit before = some (.ok (.moved next), between))
      (rest : Reaches visits next between last after) :
      Reaches (visits + 1) machine before last after

/-- The visit with the given number, counted from one, is the last one. -/
inductive Ends : Nat → Machine σ V ρ → σ → Except Panic (V × RunStats) → σ → Prop
  | finished {machine : Machine σ V ρ} {before after : σ} {value : V} {stats : RunStats}
      (finished : machine.visit before = some (.ok (.finished value stats), after)) :
      Ends 1 machine before (.ok (value, stats)) after
  | panicked {machine : Machine σ V ρ} {before after : σ} {reason : Panic}
      (panicked : machine.visit before = some (.error reason, after)) :
      Ends 1 machine before (.error reason) after
  | visit {visits : Nat} {machine next : Machine σ V ρ} {before between after : σ}
      {ending : Except Panic (V × RunStats)}
      (moved : machine.visit before = some (.ok (.moved next), between))
      (rest : Ends visits next between ending after) :
      Ends (visits + 1) machine before ending after

namespace Reaches

variable {visits : Nat} {machine last : Machine σ V ρ} {before after : σ}

theorem visit_last {next : Machine σ V ρ} {end' : σ}
    (reaches : Reaches visits machine before last after)
    (moved : last.visit after = some (.ok (.moved next), end')) :
    Reaches (visits + 1) machine before next end' := by
  induction reaches with
  | start machine world => exact .visit moved (.start _ _)
  | visit first _ ih => exact .visit first (ih moved)

/-- A sequence of visits passes through a machine after each smaller number of visits. -/
theorem exists_of_le {fewer : Nat} (reaches : Reaches visits machine before last after)
    (le : fewer ≤ visits) :
    ∃ middle between, Reaches fewer machine before middle between := by
  induction reaches generalizing fewer with
  | start machine world =>
      obtain rfl : fewer = 0 := by omega
      exact ⟨machine, world, .start _ _⟩
  | visit moved _ ih =>
      rcases fewer with _ | fewer
      · exact ⟨_, _, .start _ _⟩
      · rcases ih (by omega : fewer ≤ _) with ⟨middle, between, middle_reaches⟩
        exact ⟨middle, between, .visit moved middle_reaches⟩

theorem steps_eq (reaches : Reaches visits machine before last after) :
    last.steps = machine.steps + visits := by
  induction reaches with
  | start machine world => rfl
  | visit moved _ ih =>
      have visits := (visits_iff _ _ _ _).mp moved
      cases visits <;> simp only at ih <;> omega

end Reaches

namespace Ends

variable {visits : Nat} {machine : Machine σ V ρ} {before after : σ}
  {ending : Except Panic (V × RunStats)}

/-- Before its last visit a run passes through a machine after each number of visits. -/
theorem exists_reaches {fewer : Nat} (ends : Ends visits machine before ending after)
    (less : fewer < visits) : ∃ middle between, Reaches fewer machine before middle between := by
  induction ends generalizing fewer with
  | finished =>
      obtain rfl : fewer = 0 := by omega
      exact ⟨_, _, .start _ _⟩
  | panicked =>
      obtain rfl : fewer = 0 := by omega
      exact ⟨_, _, .start _ _⟩
  | visit moved _ ih =>
      rcases fewer with _ | fewer
      · exact ⟨_, _, .start _ _⟩
      · rcases ih (by omega : fewer < _) with ⟨middle, between, reaches⟩
        exact ⟨middle, between, .visit moved reaches⟩

theorem steps_eq {value : V} {stats : RunStats}
    (ends : Ends visits machine before (.ok (value, stats)) after) :
    stats.steps = machine.steps + visits := by
  generalize ending_eq : Except.ok (value, stats) = ending at ends
  induction ends with
  | finished finished =>
      cases ending_eq
      have visits := (visits_iff _ _ _ _).mp finished
      cases visits
      rfl
  | panicked => cases ending_eq
  | visit moved _ ih =>
      have steps := (Reaches.visit moved (.start _ _)).steps_eq
      have := ih ending_eq
      omega

theorem not_reaches (ends : Ends visits machine before ending after) {last : Machine σ V ρ}
    {world : σ} : ¬ Reaches visits machine before last world := by
  intro reaches
  induction ends generalizing last with
  | finished finished =>
      cases reaches with
      | visit moved _ => simp [finished] at moved
  | panicked panicked =>
      cases reaches with
      | visit moved _ => simp [panicked] at moved
  | visit moved _ ih =>
      cases reaches with
      | visit moved' rest =>
          rw [moved] at moved'
          cases moved'
          exact ih rest

theorem drive_eq (ends : Ends visits machine before ending after) :
    machine.drive before = some (ending, after) := by
  induction ends with
  | finished finished => exact drive_of_finished finished
  | panicked panicked => exact drive_of_panicked panicked
  | visit moved _ ih => rw [drive_of_moved moved, ih]

end Ends

/-- A run that answers ends in one of its visits. -/
theorem exists_ends_of_drive (machine : Machine σ V ρ) (before : σ)
    (answer : Except Panic (V × RunStats) × σ) (driven : machine.drive before = some answer) :
    ∃ visits, Ends visits machine before answer.1 answer.2 := by
  refine drive.fixpoint_induct (fun drive => ∀ machine before answer,
    drive machine before = some answer → ∃ visits, Ends visits machine before answer.1 answer.2)
    ?_ ?_ machine before answer driven
  · exact fun _ _ => Call.answers_of_chain
      fun _ _ => ⟨fun order => by cases order <;> simp, by rintro (rfl | rfl) <;> constructor⟩
  · rintro drive ih machine before ⟨ending, after⟩ driven
    rcases Call.bind_eq_some_iff.mp driven with
      ⟨reason, panicked, rfl⟩ | ⟨visited, between, visited_eq, driven⟩
    · exact ⟨1, .panicked panicked⟩
    · rcases visited with next | ⟨value, stats⟩
      · rcases ih next between _ driven with ⟨visits, ends⟩
        exact ⟨visits + 1, .visit visited_eq ends⟩
      · simp only [Call.pure_apply, Option.some.injEq, Prod.mk.injEq] at driven
        rcases driven with ⟨rfl, rfl⟩
        exact ⟨1, .finished visited_eq⟩

/-- Visit after visit is made, without end. -/
def Endless (machine : Machine σ V ρ) (before : σ) : Prop :=
  ∀ visits, ∃ last after, Reaches visits machine before last after

/-- So many visits are made, and in the next one a call does not return. -/
def Hangs (visits : Nat) (machine : Machine σ V ρ) (before : σ) : Prop :=
  ∃ last after, Reaches visits machine before last after ∧ last.visit after = none

theorem drive_of_endless {machine : Machine σ V ρ} {before : σ}
    (endless : machine.Endless before) : machine.drive before = none := by
  rw [Option.eq_none_iff_forall_ne_some]
  intro answer driven
  rcases exists_ends_of_drive machine before answer driven with ⟨visits, ends⟩
  rcases endless visits with ⟨last, after, reaches⟩
  exact ends.not_reaches reaches

theorem drive_of_hangs {visits : Nat} {machine : Machine σ V ρ} {before : σ}
    (hangs : machine.Hangs visits before) : machine.drive before = none := by
  rcases hangs with ⟨last, after, reaches, hangs⟩
  induction reaches with
  | start machine world =>
      rw [drive]
      exact Call.bind_of_none hangs
  | visit moved _ ih => rw [drive_of_moved moved, ih hangs]

theorem reaches_or_ends_or_hangs (visits : Nat) (machine : Machine σ V ρ) (before : σ) :
    (∃ last after, Reaches visits machine before last after) ∨
      (∃ number ending after, Ends number machine before ending after) ∨
      ∃ number, machine.Hangs number before := by
  induction visits generalizing machine before with
  | zero => exact .inl ⟨machine, before, .start _ _⟩
  | succ visits ih =>
      rcases visited : machine.visit before with _ | ⟨reason | next | ⟨value, stats⟩, between⟩
      · exact .inr (.inr ⟨0, machine, before, .start _ _, visited⟩)
      · exact .inr (.inl ⟨1, _, _, .panicked visited⟩)
      · rcases ih next between with ⟨last, after, reaches⟩ |
          ⟨number, ending, after, ends⟩ | ⟨number, last, after, reaches, hangs⟩
        · exact .inl ⟨last, after, .visit visited reaches⟩
        · exact .inr (.inl ⟨number + 1, ending, after, .visit visited ends⟩)
        · exact .inr (.inr ⟨number + 1, last, after, .visit visited reaches, hangs⟩)
      · exact .inr (.inl ⟨1, _, _, .finished visited⟩)

/-- A run ends, or goes on without end, or makes a call that never returns. -/
theorem ends_or_endless_or_hangs (machine : Machine σ V ρ) (before : σ) :
    (∃ visits ending after, Ends visits machine before ending after) ∨
      machine.Endless before ∨ ∃ visits, machine.Hangs visits before := by
  rw [or_left_comm]
  by_contra neither
  rcases not_or.mp neither with ⟨not_endless, neither⟩
  refine not_endless fun visits => ?_
  exact (reaches_or_ends_or_hangs visits machine before).resolve_right neither

section Bounded

variable {visits : Nat} {machine last : Machine σ V ρ} {before after : σ}

/-- A run that is stopped has made just the visits that it was allowed. -/
theorem driveWithin_of_reaches (reaches : Reaches visits machine before last after) :
    machine.driveWithin visits before =
      some (.ok (.limitReached last.stats last.pending.depth), after) := by
  induction reaches with
  | start machine world => rfl
  | visit moved _ ih => rw [driveWithin_of_moved moved, ih]

/-- A limit that a run does not exceed makes no difference. -/
theorem driveWithin_of_ends {allowed : Nat} {ending : Except Panic (V × RunStats)}
    (ends : Ends visits machine before ending after) (le : visits ≤ allowed) :
    machine.driveWithin allowed before =
      some (ending.map fun (value, stats) => .finished value stats, after) := by
  induction ends generalizing allowed with
  | finished finished =>
      rcases Nat.exists_eq_add_of_le' le with ⟨allowed, rfl⟩
      exact driveWithin_of_finished finished
  | panicked panicked =>
      rcases Nat.exists_eq_add_of_le' le with ⟨allowed, rfl⟩
      exact driveWithin_of_panicked panicked
  | @visit visits _ _ _ _ _ _ moved _ ih =>
      rcases Nat.exists_eq_add_of_le' le with ⟨more, rfl⟩
      rw [← Nat.add_assoc, driveWithin_of_moved moved, ih (by omega)]

/-- A limit does not help against a call that never returns. -/
theorem driveWithin_of_hangs {allowed : Nat} (hangs : machine.Hangs visits before)
    (lt : visits < allowed) : machine.driveWithin allowed before = none := by
  rcases hangs with ⟨last, after, reaches, hangs⟩
  induction reaches generalizing allowed with
  | start machine world =>
      rcases Nat.exists_eq_add_of_le' lt with ⟨allowed, rfl⟩
      exact Call.bind_of_none hangs
  | @visit visits _ _ _ _ _ _ moved _ ih =>
      rcases Nat.exists_eq_add_of_le' lt with ⟨more, rfl⟩
      rw [Nat.add_succ, driveWithin_of_moved moved, ih (by omega) hangs]

end Bounded

end Deferral.Machine

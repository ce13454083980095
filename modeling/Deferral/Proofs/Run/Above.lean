import Deferral.Proofs.Run.Depth

/-!
# Runs above a stack

A run does not look at what waited before it began. So the run of a graph on its own can be put
above any stack: it makes the same visits in the same worlds, until it has a value and the stack
below gives the continuation to go on with. Its statistics add to those that were there before.

This is how the run of a bind is told by the run of its predecessor. It makes one visit, then the
visits of the predecessor above its own continuation, and with the last of them it hands the value
on.
-/

namespace Deferral

namespace Pending

variable {κ : Type} {pending rest : Pending κ} {continuation : κ}

/-- What waits in one stack, on top of what waits in another. -/
def above (pending base : Pending κ) : Pending κ where
  waiting := pending.waiting ++ base.waiting
  depth := pending.depth + base.depth
  peak := max base.peak (base.depth + pending.peak)

/-- The stack after so many more continuations waited for a while. -/
def raise (pending : Pending κ) (more : Nat) : Pending κ :=
  { pending with peak := max pending.peak (pending.depth + more) }

theorem push_above (pending base : Pending κ) (continuation : κ) :
    (pending.push continuation).above base = (pending.above base).push continuation := by
  simp only [push, above, List.cons_append, Pending.mk.injEq, true_and]
  omega

theorem pop?_above_of_some (base : Pending κ) (counted : pending.Counted)
    (popped : pending.pop? = some (continuation, rest)) :
    (pending.above base).pop? = some (continuation, rest.above base) := by
  rcases pop?_eq_some_iff.mp popped with ⟨waiting_eq, depth_eq, peak_eq⟩
  have counted : pending.depth = pending.waiting.length := counted
  rw [waiting_eq, List.length_cons] at counted
  apply pop?_eq_some_iff.mpr
  simp only [above, waiting_eq, List.cons_append, peak_eq, true_and, and_true]
  omega

theorem above_of_pop?_eq_none (base : Pending κ) (counted : pending.Counted)
    (popped : pending.pop? = none) : pending.above base = base.raise pending.peak := by
  have waiting_eq := (pop?_eq_none_iff pending).mp popped
  have depth_eq : pending.depth = 0 := by
    rw [counted, waiting_eq, List.length_nil]
  simp [above, raise, waiting_eq, depth_eq]

theorem raise_raise (pending : Pending κ) (first second : Nat) :
    (pending.raise first).raise second = pending.raise (max first second) := by
  simp only [raise, Pending.mk.injEq, true_and]
  omega

theorem pop?_raise_push (pending : Pending κ) (continuation : κ) (more : Nat) :
    ((pending.push continuation).raise more).pop? =
      some (continuation, pending.raise (1 + more)) := by
  apply pop?_eq_some_iff.mpr
  simp only [raise, push, Nat.add_sub_cancel, true_and]
  omega

theorem pop?_raise_of_nil (waiting_eq : pending.waiting = []) (more : Nat) :
    (pending.raise more).pop? = none :=
  (pop?_eq_none_iff _).mpr waiting_eq

theorem depth_le_peak_push (pending : Pending κ) (continuation : κ) :
    (pending.push continuation).depth ≤ (pending.push continuation).peak := by
  simp

theorem depth_le_peak_raise (pending : Pending κ) (more : Nat) :
    (pending.raise more).depth ≤ (pending.raise more).peak := by
  simp only [raise]
  omega

end Pending

namespace Machine

variable {σ V ρ : Type} {base : Pending (Graph.Continuation σ V V ρ)} {steps : Nat}

/-- A run above a stack, after so many visits that were made before it began. -/
def above (machine : Machine σ V ρ) (base : Pending (Graph.Continuation σ V V ρ)) (steps : Nat) :
    Machine σ V ρ where
  current := machine.current
  pending := machine.pending.above base
  steps := steps + machine.steps

theorem start_above (graph : Graph σ V V ρ) (le : base.depth ≤ base.peak) :
    (start graph).above base steps = ⟨graph, base, steps⟩ := by
  simp [above, start, Pending.above, le]

variable [Equations ρ σ V V]
variable {visits more : Nat} {machine next last : Machine σ V ρ} {before between after : σ}

section Visit

theorem visit_above_of_moved (counted : machine.pending.Counted)
    (moved : machine.visit before = some (.ok (.moved next), after)) :
    (machine.above base steps).visit before =
      some (.ok (.moved (next.above base steps)), after) := by
  apply (visits_iff _ _ _ _).mpr
  have visits := (visits_iff _ _ _ _).mp moved
  cases visits with
  | descends shape_eq =>
      simp only [above, Pending.push_above]
      exact .descends shape_eq
  | resumes shape_eq produced popped resumed =>
      exact .resumes shape_eq produced (Pending.pop?_above_of_some base counted popped) resumed

theorem visit_above_of_panicked {reason : Panic} (counted : machine.pending.Counted)
    (panicked : machine.visit before = some (.error reason, after)) :
    (machine.above base steps).visit before = some (.error reason, after) := by
  apply (visits_iff _ _ _ _).mpr
  have visits := (visits_iff _ _ _ _).mp panicked
  cases visits with
  | producerPanics shape_eq produced => exact .producerPanics shape_eq produced
  | continuationPanics shape_eq produced popped resumed =>
      have popped := Pending.pop?_above_of_some base counted popped
      exact .continuationPanics shape_eq produced popped resumed

theorem visit_above_of_none (counted : machine.pending.Counted)
    (hangs : machine.visit before = none) : (machine.above base steps).visit before = none := by
  rcases shape_eq : machine.current.shape with produce | ⟨predecessor, resume⟩
  · have above_shape : (machine.above base steps).current.shape = .leaf produce := shape_eq
    rw [visit_of_leaf shape_eq] at hangs
    rw [visit_of_leaf above_shape]
    rcases produced : produce before with _ | ⟨reason | value, between⟩
    · exact Call.bind_of_none produced
    · rw [Call.bind_of_error produced] at hangs
      cases hangs
    · rw [Call.bind_of_ok produced] at hangs ⊢
      rcases popped : machine.pending.pop? with _ | ⟨resume, rest⟩
      · simp [popped] at hangs
      · have above_popped : (machine.above base steps).pending.pop? =
            some (resume, rest.above base) := Pending.pop?_above_of_some base counted popped
        simp only [popped] at hangs
        simp only [above_popped]
        rcases resumed : resume value between with _ | ⟨reason | next, last⟩
        · exact Call.bind_of_none resumed
        · rw [Call.bind_of_error resumed] at hangs
          cases hangs
        · rw [Call.bind_of_ok resumed] at hangs
          cases hangs
  · simp [visit_of_bind shape_eq] at hangs

/-- In the visit in which a run on its own has its value, the stack below goes on. -/
theorem visit_above_of_finished (base : Pending (Graph.Continuation σ V V ρ)) (steps : Nat)
    {value : V} {size : RunStats} (counted : machine.pending.Counted)
    (finished : machine.visit before = some (.ok (.finished value size), after)) :
    (machine.above base steps).visit before =
      (match (base.raise size.peakStackDepth).pop? with
        | none =>
          return .finished value ⟨steps + size.steps, (base.raise size.peakStackDepth).peak⟩
        | some (resume, pending) => do
          let next ← resume value
          return .moved ⟨next, pending, steps + size.steps⟩ : Call σ (Visited σ V ρ)) after := by
  have visits := (visits_iff _ _ _ _).mp finished
  cases visits with
  | finishes shape_eq produced popped =>
      have above_shape : (machine.above base steps).current.shape = .leaf _ := shape_eq
      have above_pending := Pending.above_of_pop?_eq_none base counted popped
      rw [visit_of_leaf above_shape, Call.bind_of_ok produced]
      simp only [above, above_pending]
      rfl

end Visit

namespace Reaches

theorem trans (reaches : Reaches visits machine before next between)
    (rest : Reaches more next between last after) :
    Reaches (visits + more) machine before last after := by
  induction reaches with
  | start machine world => simpa using rest
  | visit moved _ ih =>
      rw [Nat.add_right_comm]
      exact .visit moved (ih rest)

theorem ends {ending : Except Panic (V × RunStats)}
    (reaches : Reaches visits machine before next between)
    (ends : Ends more next between ending after) :
    Ends (visits + more) machine before ending after := by
  induction reaches with
  | start machine world => simpa using ends
  | visit moved _ ih =>
      rw [Nat.add_right_comm]
      exact .visit moved (ih ends)

theorem hangs (reaches : Reaches visits machine before next between)
    (hangs : next.Hangs more between) : machine.Hangs (visits + more) before := by
  rcases hangs with ⟨last, after, rest, hangs⟩
  exact ⟨last, after, reaches.trans rest, hangs⟩

/-- A run of which a part was made goes on without end if what is left does. -/
theorem endless (reaches : Reaches visits machine before next between)
    (endless : next.Endless between) : machine.Endless before := by
  intro number
  rcases endless number with ⟨last, after, rest⟩
  have all := reaches.trans rest
  exact all.exists_of_le (Nat.le_add_left number visits)

theorem above (reaches : Reaches visits machine before last after)
    (sound : machine.pending.Sound) :
    Reaches visits (machine.above base steps) before (last.above base steps) after := by
  induction reaches with
  | start machine world => exact .start _ _
  | visit moved _ ih =>
      have rest := ih (visit_sound moved sound).1
      exact .visit (visit_above_of_moved sound.counted moved) rest

end Reaches

/-- A run that ends has one last visit, after all the others. -/
theorem Ends.exists_last {ending : Except Panic (V × RunStats)}
    (ends : Ends visits machine before ending after) :
    ∃ fewer last between, visits = fewer + 1 ∧ Reaches fewer machine before last between ∧
      last.visit between =
        some (ending.map fun (value, stats) => .finished value stats, after) := by
  induction ends with
  | finished finished => exact ⟨0, _, _, rfl, .start _ _, finished⟩
  | panicked panicked => exact ⟨0, _, _, rfl, .start _ _, panicked⟩
  | visit moved _ ih =>
      rcases ih with ⟨fewer, last, between, rfl, reaches, ended⟩
      exact ⟨fewer + 1, last, between, rfl, .visit moved reaches, ended⟩

theorem Ends.above_of_error {reason : Panic}
    (ends : Ends visits machine before (.error reason) after) (sound : machine.pending.Sound) :
    Ends visits (machine.above base steps) before (.error reason) after := by
  rcases ends.exists_last with ⟨fewer, last, between, rfl, reaches, panicked⟩
  have counted := (reaches.sound sound).counted
  exact (reaches.above sound).ends (.panicked (visit_above_of_panicked counted panicked))

theorem Hangs.above (hangs : machine.Hangs visits before) (sound : machine.pending.Sound) :
    (machine.above base steps).Hangs visits before := by
  rcases hangs with ⟨last, between, reaches, hangs⟩
  have counted := (reaches.sound sound).counted
  exact ⟨_, _, reaches.above sound, visit_above_of_none counted hangs⟩

/-- Above nothing, a run has its value in the same visit as on its own. -/
theorem Ends.above_of_nil {value : V} {size : RunStats} (waiting_eq : base.waiting = [])
    (ends : Ends visits machine before (.ok (value, size)) after) (sound : machine.pending.Sound) :
    ∃ stats, Ends visits (machine.above base steps) before (.ok (value, stats)) after := by
  rcases ends.exists_last with ⟨fewer, last, between, rfl, reaches, finished⟩
  have visited := visit_above_of_finished base steps (reaches.sound sound).counted finished
  rw [Pending.pop?_raise_of_nil waiting_eq] at visited
  exact ⟨_, (reaches.above sound).ends (.finished visited)⟩

/-- A run goes on for so many visits, or it ends or hangs before. -/
theorem reaches_or_ends_or_hangs_within (visits : Nat) (machine : Machine σ V ρ) (before : σ) :
    (∃ last after, Reaches visits machine before last after) ∨
      (∃ number ≤ visits, ∃ ending after, Ends number machine before ending after) ∨
      ∃ number < visits, machine.Hangs number before := by
  rcases reaches_or_ends_or_hangs visits machine before with
    reached | ⟨number, ending, after, ends⟩ | ⟨number, last, after, reaches, hangs⟩
  · exact .inl reached
  · rcases Nat.lt_or_ge visits number with less | le
    · exact .inl (ends.exists_reaches less)
    · exact .inr (.inl ⟨number, le, ending, after, ends⟩)
  · rcases Nat.lt_or_ge number visits with less | le
    · exact .inr (.inr ⟨number, less, last, after, reaches, hangs⟩)
    · exact .inl (reaches.exists_of_le le)

theorem Hangs.not_reaches (hangs : machine.Hangs visits before) :
    ¬ Reaches (visits + 1) machine before last after := by
  rcases hangs with ⟨stuck, between, reaches, hangs⟩
  intro further
  induction reaches generalizing last with
  | start machine world =>
      cases further with
      | visit moved _ => simp [hangs] at moved
  | visit moved _ ih =>
      cases further with
      | visit moved' rest =>
          rw [moved] at moved'
          cases moved'
          exact ih hangs rest

namespace Endless

theorem not_ends {ending : Except Panic (V × RunStats)} (endless : machine.Endless before) :
    ¬ Ends visits machine before ending after := by
  intro ends
  rcases endless visits with ⟨last, world, reaches⟩
  exact ends.not_reaches reaches

theorem not_hangs (endless : machine.Endless before) : ¬ machine.Hangs visits before := by
  intro hangs
  rcases endless (visits + 1) with ⟨last, world, reaches⟩
  exact hangs.not_reaches reaches

/-- What is left of a run without end is a run without end. -/
theorem rest (endless : machine.Endless before)
    (reaches : Reaches visits machine before next between) : next.Endless between := by
  intro number
  induction reaches with
  | start machine world => exact endless number
  | visit moved _ ih =>
      apply ih
      intro more
      rcases endless (more + 1) with ⟨last, after, longer⟩
      cases longer with
      | visit moved' longer =>
          rw [moved] at moved'
          cases moved'
          exact ⟨last, after, longer⟩

theorem above (endless : machine.Endless before) (sound : machine.pending.Sound) :
    (machine.above base steps).Endless before := by
  intro visits
  rcases endless visits with ⟨last, after, reaches⟩
  exact ⟨_, _, reaches.above sound⟩

/-- A run that goes on without end above nothing does so on its own. -/
theorem of_above (waiting_eq : base.waiting = []) (sound : machine.pending.Sound)
    (endless : (machine.above base steps).Endless before) : machine.Endless before := by
  rcases machine.ends_or_endless_or_hangs before with
    ⟨visits, ending, after, ends⟩ | alone | ⟨visits, hangs⟩
  · rcases ending with reason | ⟨value, size⟩
    · exact absurd (ends.above_of_error sound) endless.not_ends
    · rcases ends.above_of_nil waiting_eq sound with ⟨stats, above⟩
      exact absurd above endless.not_ends
  · exact alone
  · exact absurd (hangs.above sound) endless.not_hangs

end Endless

section Bind

variable {graph predecessor : Graph σ V V ρ} {resume : Graph.Continuation σ V V ρ}
  {pending : Pending (Graph.Continuation σ V V ρ)}

/-- The run of a bind is the run of its predecessor above the bind's continuation. -/
theorem reaches_predecessor (shape_eq : graph.shape = .bind predecessor resume) :
    Reaches 1 ⟨graph, pending, steps⟩ before
      ((start predecessor).above (pending.push resume) (steps + 1)) before := by
  rw [start_above predecessor (pending.depth_le_peak_push resume)]
  have descends := (visits_iff ⟨graph, pending, steps⟩ before before _).mpr (.descends shape_eq)
  exact .visit descends (.start _ _)

section Value

variable {value : V} {size : RunStats}
  (ends : Ends visits (start predecessor) before (.ok (value, size)) between)

include ends

/-- The last visit of the predecessor takes the continuation of the bind off the stack. -/
theorem last_visit_of_bind (resume : Graph.Continuation σ V V ρ)
    (pending : Pending (Graph.Continuation σ V V ρ)) (steps : Nat) :
    ∃ fewer last world, visits = fewer + 1 ∧
      Reaches fewer ((start predecessor).above (pending.push resume) (steps + 1)) before
        last world ∧
      last.visit world = (do
        let next ← resume value
        return .moved ⟨next, pending.raise (1 + size.peakStackDepth), steps + 1 + visits⟩ :
        Call σ (Visited σ V ρ)) between := by
  rcases ends.exists_last with ⟨fewer, last, world, rfl, reaches, finished⟩
  have counted := (reaches.sound Pending.sound_empty).counted
  have steps_eq : size.steps = fewer + 1 := by
    rw [ends.steps_eq]
    exact Nat.zero_add _
  refine ⟨fewer, _, world, rfl, reaches.above Pending.sound_empty, ?_⟩
  rw [visit_above_of_finished _ _ counted finished, Pending.pop?_raise_push, steps_eq]

theorem reaches_of_resumed (shape_eq : graph.shape = .bind predecessor resume)
    {next : Graph σ V V ρ} (resumed : resume value between = some (.ok next, after)) :
    Reaches (1 + visits) ⟨graph, pending, steps⟩ before
      ⟨next, pending.raise (1 + size.peakStackDepth), steps + 1 + visits⟩ after := by
  rcases last_visit_of_bind ends resume pending steps with
    ⟨fewer, last, world, rfl, reaches, visited⟩
  rw [Call.bind_of_ok resumed] at visited
  exact (reaches_predecessor shape_eq).trans (reaches.visit_last visited)

theorem ends_of_resume_panics (shape_eq : graph.shape = .bind predecessor resume) {reason : Panic}
    (panicked : resume value between = some (.error reason, after)) :
    Ends (1 + visits) ⟨graph, pending, steps⟩ before (.error reason) after := by
  rcases last_visit_of_bind ends resume pending steps with
    ⟨fewer, last, world, rfl, reaches, visited⟩
  rw [Call.bind_of_error panicked] at visited
  exact (reaches_predecessor shape_eq).ends (reaches.ends (.panicked visited))

theorem hangs_of_resume_hangs (shape_eq : graph.shape = .bind predecessor resume)
    (hangs : resume value between = none) :
    Hangs visits (⟨graph, pending, steps⟩ : Machine σ V ρ) before := by
  rcases last_visit_of_bind ends resume pending steps with
    ⟨fewer, last, world, rfl, reaches, visited⟩
  rw [Call.bind_of_none hangs] at visited
  rw [Nat.add_comm]
  exact (reaches_predecessor shape_eq).hangs ⟨last, world, reaches, visited⟩

end Value

theorem ends_of_predecessor_panics (shape_eq : graph.shape = .bind predecessor resume)
    {reason : Panic} (ends : Ends visits (start predecessor) before (.error reason) after) :
    Ends (1 + visits) ⟨graph, pending, steps⟩ before (.error reason) after :=
  (reaches_predecessor shape_eq).ends (ends.above_of_error Pending.sound_empty)

theorem hangs_of_predecessor_hangs (shape_eq : graph.shape = .bind predecessor resume)
    (hangs : (start predecessor).Hangs visits before) :
    Hangs (1 + visits) (⟨graph, pending, steps⟩ : Machine σ V ρ) before :=
  (reaches_predecessor shape_eq).hangs (hangs.above Pending.sound_empty)

theorem endless_of_predecessor (shape_eq : graph.shape = .bind predecessor resume)
    (endless : (start predecessor).Endless before) :
    Endless (⟨graph, pending, steps⟩ : Machine σ V ρ) before :=
  (reaches_predecessor shape_eq).endless (endless.above Pending.sound_empty)

end Bind

end Machine

end Deferral

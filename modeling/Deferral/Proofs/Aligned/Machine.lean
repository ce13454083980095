import Deferral.Proofs.Aligned.Stack
import Deferral.Proofs.Run.Halts

/-!
# Runs whose stack stays aligned

A machine is aligned if the node that it visits next yields what the continuation on top takes, and
the continuations fit on top of each other down to the type of the run. Every visit keeps this,
whatever graph a continuation answers with and however often the graph unfolds. So the value that a
leaf produces is always of the type that is wanted for it, and so is the value of the run.
-/

namespace Deferral

variable {ι σ ρ : Type} {Base : ι → Type} [Host σ (Tagged Base)]

/-- The graphs yield what they are known to, where a leaf produces the value itself. -/
def Typing.Sound [Equations ρ σ (Tagged Base) (Tagged Base)]
    (typing : Typing Base σ (Tagged Base) ρ) : Prop :=
  typing.Closed fun t value _ => value.type = t

namespace Machine

/-- The stack fits the node that is visited next, and ends with values of the type of the run. -/
def Aligned (typing : Typing Base σ (Tagged Base) ρ) (t : Ty ι)
    (machine : Machine σ (Tagged Base) ρ) (world : σ) : Prop :=
  ∃ s, typing.Yields s machine.current world ∧ typing.Stack s machine.pending.waiting t

variable {typing : Typing Base σ (Tagged Base) ρ} {t : Ty ι}
  {machine next last : Machine σ (Tagged Base) ρ} {before after : σ}

theorem aligned_start {graph : Graph σ (Tagged Base) (Tagged Base) ρ} (known : typing.known t graph)
    (world : σ) : (start graph).Aligned typing t world :=
  ⟨t, .known known world, .nil t⟩

namespace Aligned

variable [Equations ρ σ (Tagged Base) (Tagged Base)] (sound : typing.Sound)
  (aligned : machine.Aligned typing t before)

include sound aligned

/-- The value that a leaf produces is one that the stack takes. -/
theorem produces {produce : Call σ (Tagged Base)} {value : Tagged Base}
    (shape_eq : machine.current.shape = .leaf produce)
    (produced : produce before = some (.ok value, after)) :
    typing.Stack value.type machine.pending.waiting t := by
  rcases aligned with ⟨s, yields, stack⟩
  have node := sound yields
  rw [shape_eq] at node
  rcases node with ⟨_, produces⟩
  rw [produces value after produced]
  exact stack

theorem moved (moved : machine.visit before = some (.ok (.moved next), after)) :
    next.Aligned typing t after := by
  have visits := (visits_iff _ _ _ _).mp moved
  cases visits with
  | descends shape_eq =>
      rcases aligned with ⟨s, yields, stack⟩
      have node := sound yields
      rw [shape_eq] at node
      rcases node with _ | ⟨first, takes⟩
      exact ⟨_, first, .cons takes stack⟩
  | resumes shape_eq produced popped resumed =>
      rcases (aligned.produces sound shape_eq produced).of_pop popped with ⟨between, takes, below⟩
      exact ⟨between, takes.answers _ resumed, below⟩

theorem finished {value : Tagged Base} {stats : RunStats}
    (finished : machine.visit before = some (.ok (.finished value stats), after)) :
    value.type = t := by
  have visits := (visits_iff _ _ _ _).mp finished
  cases visits with
  | finishes shape_eq produced popped =>
      have stack := aligned.produces sound shape_eq produced
      rw [(Pending.pop?_eq_none_iff _).mp popped] at stack
      exact stack.type_eq

theorem panicked {reason : Panic}
    (panicked : machine.visit before = some (.error reason, after)) : typing.raised reason := by
  have visits := (visits_iff _ _ _ _).mp panicked
  cases visits with
  | producerPanics shape_eq produced =>
      rcases aligned with ⟨s, yields, stack⟩
      have node := sound yields
      rw [shape_eq] at node
      rcases node with ⟨panics, _⟩
      exact panics reason after produced
  | continuationPanics shape_eq produced popped resumed =>
      rcases (aligned.produces sound shape_eq produced).of_pop popped with ⟨_, takes, _⟩
      exact takes.panics _ resumed

theorem reaches {visits : Nat} (reaches : Reaches visits machine before last after) :
    last.Aligned typing t after := by
  induction reaches with
  | start machine world => exact aligned
  | visit moved _ ih => exact ih (aligned.moved sound moved)

end Aligned

end Machine

namespace Graph

variable [Equations ρ σ (Tagged Base) (Tagged Base)] {typing : Typing Base σ (Tagged Base) ρ}
  {t : Ty ι}
  {graph : Graph σ (Tagged Base) (Tagged Base) ρ} {options : RunOptions} {before after : σ}
  (sound : typing.Sound) (known : typing.known t graph)

include sound known

theorem type_of_halts {value : Tagged Base} {stats : RunStats}
    (halts : graph.Halts options before (.ok (.finished value stats)) after) : value.type = t := by
  cases halts with
  | finishes reaches _ _ finished =>
      exact ((Machine.aligned_start known _).reaches sound reaches).finished sound finished

theorem raised_of_halts {reason : Panic}
    (halts : graph.Halts options before (.error reason) after) : typing.raised reason := by
  cases halts with
  | panics reaches _ panicked =>
      exact ((Machine.aligned_start known _).reaches sound reaches).panicked sound panicked

theorem type_of_run {value : Tagged Base} (ran : graph.run before = some (.ok value, after)) :
    value.type = t := by
  rcases run_eq_ok_iff.mp ran with ⟨stats, between, halts, rfl⟩
  exact type_of_halts sound known halts

theorem run_panicsOnly : graph.run.PanicsOnly typing.raised := by
  intro before reason after ran
  exact raised_of_halts sound known (run_eq_error_iff.mp ran)

theorem type_of_runWith {completed : Completed (Tagged Base)}
    (ran : graph.runWith options before = some (.ok (.ok completed), after)) :
    completed.value.type = t := by
  rcases halts_or_refused ran with
    ⟨_, reason | ⟨value, stats⟩ | _, between, halts, answer_eq, rfl⟩ | ⟨_, answer_eq, _⟩
  · cases answer_eq
  · cases answer_eq
    exact type_of_halts sound known halts
  · cases answer_eq
  · cases answer_eq

/-- Besides the panics of the functions that a run calls there is only that of a stack for which
there is no room. -/
theorem runWith_panicsOnly (options : RunOptions) :
    (graph.runWith options).PanicsOnly fun reason => typing.raised reason ∨
      ¬ Machine.RoomFor options.stackCapacity ∧ reason = .text "capacity overflow" := by
  intro before reason after ran
  rcases halts_or_refused ran with
    ⟨_, _ | halt, between, halts, answer_eq, rfl⟩ | ⟨no_room, answer_eq, _⟩
  · cases answer_eq
    exact .inl (raised_of_halts sound known halts)
  · cases answer_eq
  · cases answer_eq
    exact .inr ⟨no_room, rfl⟩

end Graph

end Deferral

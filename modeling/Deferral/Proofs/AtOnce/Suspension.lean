import Deferral.Proofs.AtOnce.Walk

/-!
# Where a run waits

A run of an asynchronous graph can be left after any poll. It is then in the middle of a leaf, and
what it has done is what the run that does the work at once does up to this leaf, together with the
polls of the leaf's future so far. `Comes` says this of a future and a world; it is kept by every
poll, however many nodes the poll visits, and it determines how the run ends.
-/

namespace Deferral

variable {σ V ρ : Type} [Host σ V] [Equations ρ σ (Future σ V ρ) V]

/-- A run of a graph visits its way to a machine in a world, and finds futures unfinished so many
times on the way. -/
structure Arrives (graph : AsyncGraph σ V ρ) (origin : σ) (waits : Nat)
    (machine : AsyncMachine σ V ρ) (world : σ) : Prop where
  /-- The visits are those of the run that does the work at once. -/
  reaches : (AsyncMachine.start graph).atOnce.Reaches machine.steps origin machine.atOnce world
  /-- What is left of the walk is the walk from here. -/
  walk_eq : (AsyncMachine.start graph).walk origin = Call.later waits machine.walk world

/-- A run of a graph waits in a world, after so many polls: the run that does the work at once has
visited its way to a leaf, and of the work of this leaf the first part is done. -/
inductive Suspended (graph : AsyncGraph σ V ρ) (origin : σ) : Nat → Future σ V ρ → σ → Prop
  | inLeaf {waits polls : Nat} {machine : AsyncMachine σ V ρ}
      {produce : Call σ (Future σ V ρ)} {leaf rest : Future σ V ρ} {before here world : σ}
      (arrives : Arrives graph origin waits machine before)
      (shape_eq : machine.current.shape = .leaf produce)
      (produced : produce before = some (.ok leaf, here))
      (pends : Future.Pends (polls + 1) leaf here rest world) :
      Suspended graph origin (waits + (polls + 1)) (.await rest machine.pending) world

/-- What is left of a run of a graph is a future in a world, after so many polls that found futures
unfinished. In the middle of a poll a leaf may be there whose future was not polled yet. -/
inductive Comes (graph : AsyncGraph σ V ρ) (origin : σ) : Nat → Future σ V ρ → σ → Prop
  | visiting {waits : Nat} {machine : AsyncMachine σ V ρ} {world : σ}
      (arrives : Arrives graph origin waits machine world) :
      Comes graph origin waits (.visit machine.current machine.pending) world
  | awaiting {waits polls : Nat} {machine : AsyncMachine σ V ρ}
      {produce : Call σ (Future σ V ρ)} {leaf rest : Future σ V ρ} {before here world : σ}
      (arrives : Arrives graph origin waits machine before)
      (shape_eq : machine.current.shape = .leaf produce)
      (produced : produce before = some (.ok leaf, here))
      (pends : Future.Pends polls leaf here rest world) :
      Comes graph origin (waits + polls) (.await rest machine.pending) world

namespace Arrives

variable {graph : AsyncGraph σ V ρ} {origin before after : σ} {waits : Nat}
  {machine : AsyncMachine σ V ρ}

theorem start (graph : AsyncGraph σ V ρ) (origin : σ) :
    Arrives graph origin 0 (.start graph) origin :=
  ⟨.start _ _, by rw [Call.later_zero]⟩

theorem moved {next : AsyncMachine σ V ρ} {more : Nat}
    (arrives : Arrives graph origin waits machine before)
    (moved : machine.visit before = some (.ok (.moved next, more), after))
    (steps_eq : next.steps = machine.steps + 1) :
    Arrives graph origin (waits + more) next after := by
  constructor
  · rw [steps_eq]
    exact arrives.reaches.visit_last (AsyncMachine.visit_atOnce_of_ok moved)
  · rw [arrives.walk_eq, ← Call.later_later]
    exact Call.later_congr waits (AsyncMachine.walk_of_moved moved)

theorem finished {value : V} {stats : RunStats} {more : Nat}
    (arrives : Arrives graph origin waits machine before)
    (finished : machine.visit before = some (.ok (.finished value stats, more), after)) :
    (AsyncMachine.start graph).walk origin = some (.ok ((value, stats), waits + more), after) := by
  rw [arrives.walk_eq]
  exact Call.later_eq_of_ok waits (AsyncMachine.walk_of_finished finished)

theorem panicked {reason : Panic} (arrives : Arrives graph origin waits machine before)
    (panicked : machine.visit before = some (.error reason, after)) :
    (AsyncMachine.start graph).walk origin = some (.error reason, after) := by
  rw [arrives.walk_eq]
  exact Call.later_eq_of_error waits (AsyncMachine.walk_of_panicked panicked)

end Arrives

/-- What an answer to a poll says of a run that was polled so many times before. -/
def Comes.Answered (graph : AsyncGraph σ V ρ) (origin : σ) (polls : Nat) :
    Except Panic (Poll V (Future σ V ρ)) × σ → Prop
  | (.ok (.pending _ rest), after) => Suspended graph origin (polls + 1) rest after
  | (.ok (.ready value), after) => ∃ stats last,
      (AsyncMachine.start graph).walk origin = some (.ok ((value, stats), polls), last) ∧
        after = Host.emit (.asyncFinished stats.peakStackDepth) last
  | (.error reason, after) =>
      (AsyncMachine.start graph).walk origin = some (.error reason, after)

namespace Comes

variable {graph : AsyncGraph σ V ρ} {origin : σ}

/-- A poll leaves a run further on its way, or ends it as the walk ends. -/
theorem answered {future : Future σ V ρ} {before : σ} {polls : Nat}
    {answer : Except Panic (Poll V (Future σ V ρ)) × σ}
    (comes : Comes graph origin polls future before) (polled : future.poll before = some answer) :
    Answered graph origin polls answer := by
  refine Future.poll_induction (fun future before answer => ∀ polls,
    Comes graph origin polls future before → Answered graph origin polls answer)
    ?_ future before answer polled polls comes
  clear comes polled
  intro approx below ih future before answer polled polls comes
  rcases answer with ⟨ending, after⟩
  cases comes with
  | @visiting _ machine _ arrives =>
      rcases shape_eq : machine.current.shape with produce | ⟨predecessor, resume⟩
      · simp only [Future.pollWith, shape_eq] at polled
        rcases Call.bind_eq_some_iff.mp polled with
          ⟨reason, panicked, rfl⟩ | ⟨leaf, here, produced, polled⟩
        · apply arrives.panicked
          rw [AsyncMachine.visit_of_leaf shape_eq]
          exact Call.bind_of_error panicked
        · exact ih _ here _ polled _ (.awaiting arrives shape_eq produced (.start leaf here))
      · simp only [Future.pollWith, shape_eq] at polled
        have moved := arrives.moved (congrFun (AsyncMachine.visit_of_bind shape_eq) before) rfl
        exact ih _ before _ polled _ (.visiting moved)
  | @awaiting waits polls machine produce leaf rest start here _ arrives shape_eq produced pends =>
      rcases Call.bind_eq_some_iff.mp polled with
        ⟨reason, panicked, rfl⟩ | ⟨value | ⟨wake, next⟩, between, rest_polled, polled⟩
      · have exhausted : leaf.exhaust here = some (.error reason, after) :=
          Future.exhaust_eq_some_iff.mpr ⟨polls, rest, before, pends, below _ _ _ panicked⟩
        apply arrives.panicked
        rw [AsyncMachine.visit_of_leaf shape_eq, Call.bind_of_ok produced]
        exact Call.bind_of_error exhausted
      · -- The leaf is done, so its visit is, and the poll goes on with what waits for its value.
        have exhausted : leaf.exhaust here = some (.ok (value, polls), between) :=
          Future.exhaust_eq_some_iff.mpr ⟨rest, before, pends, below _ _ _ rest_polled⟩
        have visit_eq := congrFun (AsyncMachine.visit_of_leaf shape_eq) start
        rw [Call.bind_of_ok produced, Call.bind_of_ok exhausted] at visit_eq
        rcases popped : machine.pending.pop? with _ | ⟨resume, pending⟩
        · simp only [popped] at polled visit_eq
          cases polled
          exact ⟨_, between, arrives.finished visit_eq, rfl⟩
        · simp only [popped] at polled visit_eq
          rcases Call.bind_eq_some_iff.mp polled with
            ⟨reason, panicked, rfl⟩ | ⟨node, resumed, called, polled⟩
          · apply arrives.panicked
            rw [visit_eq]
            exact Call.bind_of_error panicked
          · rw [Call.bind_of_ok called] at visit_eq
            exact ih _ resumed _ polled _ (.visiting (arrives.moved visit_eq rfl))
      · cases polled
        have again := pends.poll_last (below _ _ _ rest_polled)
        have left : Suspended graph origin (waits + (polls + 1)) (.await next machine.pending)
            after := .inLeaf arrives shape_eq produced again
        exact left

end Comes

section Polls

variable {graph : AsyncGraph σ V ρ} {origin before after : σ} {made polls : Nat}
  {future rest : Future σ V ρ}

theorem Suspended.comes (suspended : Suspended graph origin made future before) :
    Comes graph origin made future before := by
  cases suspended with
  | inLeaf arrives shape_eq produced pends => exact .awaiting arrives shape_eq produced pends

/-- A run that waits is left waiting by polls that find it unfinished. -/
theorem Suspended.pends (suspended : Suspended graph origin made future before)
    (pends : Future.Pends polls future before rest after) :
    Suspended graph origin (made + polls) rest after := by
  induction pends generalizing made with
  | start future world => exact suspended
  | poll polled _ ih =>
      have again : Suspended graph origin (made + 1) _ _ := suspended.comes.answered polled
      rw [Nat.add_comm _ 1, ← Nat.add_assoc]
      exact ih again

theorem comes_ofGraph (graph : AsyncGraph σ V ρ) (origin : σ) :
    Comes graph origin 0 (.ofGraph graph) origin :=
  .visiting (.start graph origin)

theorem suspended_of_pends (pends : Future.Pends (polls + 1) (.ofGraph graph) origin rest after) :
    Suspended graph origin (polls + 1) rest after := by
  cases pends with
  | poll polled later =>
      have first : Suspended graph origin (0 + 1) _ _ :=
        (comes_ofGraph graph origin).answered polled
      rw [Nat.add_comm polls 1]
      exact first.pends later

theorem comes_of_pends (pends : Future.Pends polls (.ofGraph graph) origin rest after) :
    Comes graph origin polls rest after := by
  rcases polls with _ | polls
  · cases pends
    exact comes_ofGraph graph origin
  · exact (suspended_of_pends pends).comes

end Polls

end Deferral

import Deferral.Proofs.Nested.Nestable

/-!
# Interpretations within interpretations

Interpretations may be nested to any depth, in producers and in continuations, in graphs and in
themselves. Each of them is a bracket around those that its visits contain, and each is measured by
its own visits and its own stack alone.
-/

namespace Deferral

variable {ω V : Type}

/-- An interpretation of a graph up to the report of its end: how it halts, what its visits execute
and what is heard meanwhile. -/
structure Interpretation {ρ : Type} [Equations ρ (Session ω V) V V]
    (graph : Graph (Session ω V) V V ρ) (options : RunOptions) (before : Session ω V)
    (inside : List Event) (ending : Except Panic (Halt V)) (between : Session ω V) : Prop where
  halts : graph.Halts options before ending between
  visits : Executes (graph.loop options)
    (Graph.begun options.stepLimit before) inside ending between
  nested : Inside inside
  heard : between.heard = before.heard ++ .started options.stepLimit :: inside

theorem Interpretation.heard_emit {ρ : Type} [Equations ρ (Session ω V) V V]
    {graph : Graph (Session ω V) V V ρ} {options : RunOptions} {before between : Session ω V}
    {inside : List Event} {ending : Except Panic (Halt V)}
    (interpretation : Interpretation graph options before inside ending between) (event : Event) :
    (Host.emit event between).heard =
      before.heard ++ .started options.stepLimit :: (inside ++ [event]) := by
  rw [Session.heard_emit, interpretation.heard, List.append_assoc, List.cons_append]

namespace Graph

variable {ρ : Type} [Equations ρ (Session ω V) V V] {graph : Graph (Session ω V) V V ρ}
  {options : RunOptions} {before between after : Session ω V} {ending : Except Panic (Halt V)}

theorem Orderly.interpretation (orderly : graph.Orderly)
    (halts : graph.Halts options before ending between) :
    ∃ inside, Interpretation graph options before inside ending between := by
  rcases orderly.loop options _ _ _ halts.loop_eq with ⟨inside, visits⟩
  refine ⟨inside, halts, visits, visits.inside, ?_⟩
  rw [visits.heard, Session.heard_begun, List.append_assoc]
  rfl

/-- Of a graph whose functions may interpret graphs to any depth, each way to run it reports a well
nested sequence of events: its start, the interpretations that its visits contain with the panics
that are captured there, and its own end, which a panic leaves out. A panic is reported once where
it is captured, after all events of the interpretation that it leaves. Between two visits everything
that was begun inside has been left, and the number of visits, the stack and its mark are those of
this interpretation alone. Where there is no room for the stack there is no interpretation, and the
panic leaves the session as it was. -/
theorem interpretations_nest (nestable : graph.Nestable) :
    (∀ options before answer after, graph.runWith options before = some (answer, after) →
      (Machine.RoomFor options.stackCapacity ∧
        ∃ inside ending between, Interpretation graph options before inside ending between ∧
          answer = ending.map options.answer ∧
          after.heard = before.heard ++
            .started options.stepLimit :: (inside ++ (Closing.of ending).events)) ∨
      (¬ Machine.RoomFor options.stackCapacity ∧
        answer = .error (.text "capacity overflow") ∧ after = before)) ∧
    (∀ before value after, graph.run before = some (.ok value, after) →
      ∃ inside stats between,
        Interpretation graph .unbounded before inside (.ok (.finished value stats)) between ∧
        after.heard = before.heard ++ .started none :: (inside ++ [.finished stats])) ∧
    (∀ before reason after, graph.run before = some (.error reason, after) →
      ∃ inside, Interpretation graph .unbounded before inside (.error reason) after ∧
        after.heard = before.heard ++ .started none :: inside) ∧
    (∀ before answer after, graph.tryRun before = some (answer, after) →
      (∃ inside value stats between,
        Interpretation graph .unbounded before inside (.ok (.finished value stats)) between ∧
        answer = .ok (.ok value) ∧
        after.heard = before.heard ++ .started none :: (inside ++ [.finished stats])) ∨
      ∃ inside reason between,
        Interpretation graph .unbounded before inside (.error reason) between ∧
        answer = .ok (.error (.panicked reason.message)) ∧
        after.heard = before.heard ++
          .started none :: (inside ++ [.panicCaptured (.panicked reason.message)])) ∧
    ∀ (options : RunOptions) before visits last between,
      Machine.Reaches visits (Machine.start graph)
        (begun options.stepLimit before) last between →
      last.steps = visits ∧ last.pending.depth = last.pending.waiting.length ∧
        IsGreatest (Machine.depths visits (Machine.start graph)
          (begun options.stepLimit before)) last.pending.peak ∧
        ∃ inside, Inside inside ∧
          between.heard = before.heard ++ .started options.stepLimit :: inside := by
  have orderly := nestable.orderly
  refine ⟨?_, ?_, ?_, ?_, ?_⟩
  · intro options before answer after ran
    rcases halts_or_refused ran with ⟨room, ending, between, halts, answer_eq, rfl⟩ | refused
    · rcases orderly.interpretation halts with ⟨inside, interpretation⟩
      refine .inl ⟨room, inside, ending, between, interpretation, answer_eq, ?_⟩
      rw [Session.heard_closed, interpretation.heard, List.append_assoc, List.cons_append]
    · exact .inr refused
  · intro before value after ran
    rcases run_eq_ok_iff.mp ran with ⟨stats, between, halts, rfl⟩
    rcases orderly.interpretation halts with ⟨inside, interpretation⟩
    exact ⟨inside, stats, between, interpretation, interpretation.heard_emit _⟩
  · intro before reason after ran
    rcases orderly.interpretation (run_eq_error_iff.mp ran) with ⟨inside, interpretation⟩
    exact ⟨inside, interpretation, interpretation.heard⟩
  · intro before answer after tried
    rw [tryRun_apply] at tried
    rcases Option.map_eq_some_iff.mp tried with ⟨⟨reason | value, ended⟩, ran, same⟩
    · cases same
      rcases orderly.interpretation (run_eq_error_iff.mp ran) with ⟨inside, interpretation⟩
      exact .inr ⟨inside, reason, ended, interpretation, rfl, interpretation.heard_emit _⟩
    · cases same
      rcases run_eq_ok_iff.mp ran with ⟨stats, between, halts, rfl⟩
      rcases orderly.interpretation halts with ⟨inside, interpretation⟩
      exact .inl ⟨inside, value, stats, between, interpretation, rfl, interpretation.heard_emit _⟩
  · intro options before visits last between reaches
    have within := Machine.within_start graph
    rcases reaches.heard within orderly with ⟨inside, heard, nested⟩
    refine ⟨reaches.steps_eq.trans (Nat.zero_add _), (reaches.sound Pending.sound_empty).counted,
      reaches.peak_isGreatest, inside, nested, ?_⟩
    rw [heard, Session.heard_begun, List.append_assoc]
    rfl

/-- A leaf calls nothing that is not nestable, but a run of it that asks for room for `2 ^ 62`
continuations ends without having reported a start. -/
theorem huge_capacity_starts_nothing :
    let graph : Graph (Session Unit Nat) Nat Nat Empty := .leaf (pure 1 : Call _ Nat)
    graph.Nestable ∧
      graph.runWith ⟨none, 4611686018427387904⟩ (.start ()) =
        some (.error (.text "capacity overflow"), .start ()) ∧
      (Session.start () : Session Unit Nat).heard = [] :=
  ⟨.leaf (.pure 1), rfl, rfl⟩

end Graph

section Sample

/-- Go down by one and run a graph with another function there, capturing its panic. At the bottom
there is only a panic. -/
def sampleDescent (below : Call (Session Nat Nat) Nat) : Call (Session Nat Nat) Nat := do
  match ← (Session.withUser fun height => (height, height - 1) : Call (Session Nat Nat) Nat) with
  | 0 => Call.panic "the bottom"
  | _ + 1 => do
    match ← (Graph.leaf below : Graph (Session Nat Nat) Nat Nat Empty).tryRun with
    | .ok value => return value + 1
    | .error _ => return 0

/-- Descents on top of each other, so many and one more. -/
def sampleTower : Nat → Call (Session Nat Nat) Nat
  | 0 => sampleDescent (Call.panic "nothing is below")
  | height + 1 => sampleDescent (sampleTower height)

/-- Descend from the height that the session gives. -/
def sampleFall : Call (Session Nat Nat) Nat := fun session => sampleTower session.user session

/-- The graph of the fall. -/
def sampleSelf : Graph (Session Nat Nat) Nat Nat Empty := .leaf sampleFall

theorem tryRun_leaf_apply (produce : Call (Session Nat Nat) Nat) (before : Session Nat Nat) :
    (Graph.leaf produce : Graph (Session Nat Nat) Nat Nat Empty).tryRun before =
      (produce (Graph.begun none before)).map fun
        | (.ok value, between) => (.ok (.ok value), between.emit (.finished ⟨1, 0⟩))
        | (.error reason, between) =>
          (.ok (.error (.panicked reason.message)),
            between.emit (.panicCaptured (.panicked reason.message))) := by
  rw [Graph.tryRun_apply, Graph.run_eq, Graph.bind_report, Call.bind_apply, ← Graph.begun,
    Machine.start, Machine.drive_of_leaf (Graph.shape_leaf produce), Call.bind_apply]
  rcases produce (Graph.begun none before) with _ | ⟨_ | value, between⟩ <;> rfl

theorem sampleDescent_of_zero (below : Call (Session Nat Nat) Nat) {session : Session Nat Nat}
    (user_eq : session.user = 0) :
    sampleDescent below session = some (.error (.text "the bottom"), session) := by
  rcases session with ⟨_, clock, events, places, allowance⟩
  cases user_eq
  rfl

theorem sampleDescent_of_succ (below : Call (Session Nat Nat) Nat) {session : Session Nat Nat}
    {height : Nat} (user_eq : session.user = height + 1) :
    sampleDescent below session =
      (below (Graph.begun none { session with user := height })).map fun
        | (.ok value, between) => (.ok (value + 1), between.emit (.finished ⟨1, 0⟩))
        | (.error reason, between) =>
          (.ok 0, between.emit (.panicCaptured (.panicked reason.message))) := by
  rcases session with ⟨_, clock, events, places, allowance⟩
  cases user_eq
  have moved : (Session.withUser fun height => (height, height - 1) : Call (Session Nat Nat) Nat)
      ⟨height + 1, clock, events, places, allowance⟩ =
        some (.ok (height + 1), ⟨height, clock, events, places, allowance⟩) := rfl
  rw [sampleDescent, Call.bind_of_ok moved]
  change ((Graph.leaf below : Graph (Session Nat Nat) Nat Nat Empty).tryRun >>= _) _ = _
  rw [Call.bind_apply, tryRun_leaf_apply]
  rcases below (Graph.begun none ⟨height, clock, events, places, allowance⟩) with
    _ | ⟨_ | value, between⟩ <;> rfl

/-- The function of the graph runs this very graph. -/
theorem sampleFall_eq : sampleFall = sampleDescent sampleFall := by
  funext session
  rcases user_eq : session.user with _ | height
  · rw [sampleFall, user_eq, sampleTower, sampleDescent_of_zero _ user_eq,
      sampleDescent_of_zero _ user_eq]
  · rw [sampleFall, user_eq, sampleTower, sampleDescent_of_succ _ user_eq,
      sampleDescent_of_succ _ user_eq]
    rfl

theorem nestable_sampleDescent {below : Call (Session Nat Nat) Nat} (nestable : Nestable below) :
    Nestable (sampleDescent below) := by
  refine .bind (.quiet fun before ending after moved => ?_) fun height => ?_
  · cases moved
    rfl
  · rcases height with _ | height
    · exact .panic _
    · refine .bind ((Graph.Nestable.leaf nestable).runs .tryRun) fun result => ?_
      rcases result with error | value <;> exact .pure _

theorem nestable_sampleFall : Nestable sampleFall := by
  refine .alike (fun session => sampleTower session.user) (fun session => ?_) fun _ => rfl
  induction session.user with
  | zero => exact nestable_sampleDescent (.panic _)
  | succ height ih => exact nestable_sampleDescent ih

/-- From height two the graph runs itself twice, and the panic at the bottom is captured there. -/
theorem sampleSelf_nests :
    sampleFall = sampleDescent sampleFall ∧
      ∃ inside after, Inside inside ∧
        sampleSelf.tryRun (.start 2) = some (.ok (.ok 1), after) ∧
        after.heard = .started none :: (inside ++ [.finished ⟨1, 0⟩]) ∧
        inside = [.started none, .started none, .panicCaptured (.panicked "the bottom"),
          .finished ⟨1, 0⟩] := by
  have nestable : sampleSelf.Nestable := .leaf nestable_sampleFall
  rcases Graph.interpretations_nest nestable with ⟨_, _, _, tries, _⟩
  have ran : ∃ after, sampleSelf.tryRun (.start 2) = some (.ok (.ok 1), after) ∧
      after.heard = [.started none, .started none, .started none,
        .panicCaptured (.panicked "the bottom"), .finished ⟨1, 0⟩, .finished ⟨1, 0⟩] := by
    rw [sampleSelf, tryRun_leaf_apply, sampleFall_eq, sampleDescent_of_succ _ rfl, sampleFall_eq,
      sampleDescent_of_succ _ rfl, sampleFall_eq, sampleDescent_of_zero _ rfl]
    exact ⟨_, rfl, rfl⟩
  rcases ran with ⟨after, tried, heard⟩
  rcases tries _ _ _ tried with
    ⟨inside, value, stats, between, interpretation, _, nested⟩ | ⟨_, _, _, _, error, _⟩
  · rw [heard] at nested
    have split : [.started none, .started none, .panicCaptured (.panicked "the bottom"),
        .finished ⟨1, 0⟩] ++ [Event.finished ⟨1, 0⟩] = inside ++ [.finished stats] :=
      (List.cons.inj nested).2
    rcases List.append_inj' split rfl with ⟨inside_eq, _⟩
    exact ⟨sampleFall_eq, inside, after, interpretation.nested, tried,
      by rw [heard, ← inside_eq]; rfl, inside_eq.symm⟩
  · cases error

end Sample

end Deferral

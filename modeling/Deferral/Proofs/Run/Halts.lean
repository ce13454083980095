import Deferral.Proofs.Run.Above
import Deferral.Proofs.Run.Recursion

/-!
# How interpretations end

Limited or not, an interpretation makes its visits one after the other and ends in one of three
ways: a visit has the value, a visit panics, or the limit forbids another visit. `Graph.Halts` says
which, from the report of the start to that of the end, and with which measurements: they count the
visits of this interpretation and the continuations that wait on its own stack.
-/

namespace Deferral

namespace RunOptions

/-- After so many visits another one may be made. -/
def Allows (options : RunOptions) (visits : Nat) : Prop :=
  ∀ limit, options.stepLimit = some limit → visits < limit.toNat

theorem allows_of_none {options : RunOptions} (unlimited : options.stepLimit = none)
    (visits : Nat) : options.Allows visits := by
  intro limit limit_eq
  rw [unlimited] at limit_eq
  cases limit_eq

/-- The answer of a run that ends in the given way. -/
def answer {V : Type} (options : RunOptions) (halt : Halt V) : Except RunError (Completed V) :=
  halt.answer (options.stepLimit.getD 0)

end RunOptions

namespace Machine

variable {σ V ρ : Type} [Equations ρ σ V V]

/-- All visits of a run, as many as a limit allows if there is one. -/
def loop (machine : Machine σ V ρ) : Option UInt64 → Call σ (Halt V)
  | none => (fun (value, stats) => .finished value stats) <$> machine.drive
  | some limit => machine.driveWithin limit.toNat

variable {visits : Nat} {machine last : Machine σ V ρ} {before between after : σ}
  {options : RunOptions}

theorem loop_of_ends {ended : Except Panic (V × RunStats)}
    (ends : Ends (visits + 1) machine before ended after) (allows : options.Allows visits) :
    machine.loop options.stepLimit before =
      some (ended.map fun (value, stats) => .finished value stats, after) := by
  rcases limit_eq : options.stepLimit with _ | limit
  · rw [loop, Call.map_apply, ends.drive_eq, Option.map_some]
  · exact driveWithin_of_ends ends (allows limit limit_eq)

/-- A loop that answers stops at the limit or ends in one of its visits. -/
theorem loop_cases {ending : Except Panic (Halt V)}
    (looped : machine.loop options.stepLimit before = some (ending, after)) :
    (∃ limit last, options.stepLimit = some limit ∧
      Reaches limit.toNat machine before last after ∧
      ending = .ok (.limitReached last.stats last.pending.depth)) ∨
    ∃ visits last between, ∃ ended : Except Panic (V × RunStats), options.Allows visits ∧
      Reaches visits machine before last between ∧
      last.visit between = some (ended.map fun (value, stats) => .finished value stats, after) ∧
      ending = ended.map fun (value, stats) => .finished value stats := by
  rcases limit_eq : options.stepLimit with _ | limit
  · rw [limit_eq, loop, Call.map_apply] at looped
    rcases driven : machine.drive before with _ | ⟨ended, between⟩
    · rw [driven] at looped
      cases looped
    · rw [driven] at looped
      cases looped
      rcases exists_ends_of_drive _ _ _ driven with ⟨visits, ends⟩
      rcases ends.exists_last with ⟨fewer, last, between, rfl, reaches, visited⟩
      exact .inr ⟨fewer, last, between, ended, RunOptions.allows_of_none limit_eq fewer, reaches,
        visited, rfl⟩
  · rw [limit_eq, loop] at looped
    rcases reaches_or_ends_or_hangs_within limit.toNat machine before with
      ⟨last, between, reaches⟩ | ⟨visits, le, ended, between, ends⟩ | ⟨visits, less, hangs⟩
    · rw [driveWithin_of_reaches reaches] at looped
      cases looped
      exact .inl ⟨limit, last, rfl, reaches, rfl⟩
    · rw [driveWithin_of_ends ends le] at looped
      cases looped
      rcases ends.exists_last with ⟨fewer, last, between, rfl, reaches, visited⟩
      refine .inr ⟨fewer, last, between, ended, fun bound bound_eq => ?_, reaches, visited, rfl⟩
      rw [limit_eq] at bound_eq
      cases bound_eq
      exact le
    · rw [driveWithin_of_hangs hangs less] at looped
      cases looped

end Machine

namespace Graph

variable {σ V ρ : Type} [Host σ V] [Equations ρ σ V V]
variable {graph : Graph σ V V ρ} {options : RunOptions} {before between after : σ}
  {ending : Except Panic (Halt V)}

/-- An interpretation ends in the given way, from the world before it begins to the world in which
its end is reported. -/
inductive Halts (graph : Graph σ V V ρ) (options : RunOptions) (before : σ) :
    Except Panic (Halt V) → σ → Prop
  | finishes {visits peak : Nat} {last : Machine σ V ρ} {between after : σ} {value : V}
      (reaches : Machine.Reaches visits (Machine.start graph)
        (begun options.stepLimit before) last between)
      (allows : options.Allows visits)
      (deepest : IsGreatest (Machine.depths visits
        (Machine.start graph) (begun options.stepLimit before)) peak)
      (finished : last.visit between = some (.ok (.finished value ⟨visits + 1, peak⟩), after)) :
      Halts graph options before (.ok (.finished value ⟨visits + 1, peak⟩)) after
  | panics {visits : Nat} {last : Machine σ V ρ} {between after : σ} {reason : Panic}
      (reaches : Machine.Reaches visits (Machine.start graph)
        (begun options.stepLimit before) last between)
      (allows : options.Allows visits)
      (panicked : last.visit between = some (.error reason, after)) :
      Halts graph options before (.error reason) after
  | stops {limit : UInt64} {peak : Nat} {last : Machine σ V ρ} {after : σ}
      (limit_eq : options.stepLimit = some limit)
      (reaches : Machine.Reaches limit.toNat (Machine.start graph)
        (begun options.stepLimit before) last after)
      (deepest : IsGreatest (Machine.depths limit.toNat
        (Machine.start graph) (begun options.stepLimit before)) peak) :
      Halts graph options before
        (.ok (.limitReached ⟨limit.toNat, peak⟩ last.pending.waiting.length)) after

/-- The visits of an interpretation. -/
def loop (graph : Graph σ V V ρ) (options : RunOptions) : Call σ (Halt V) :=
  (Machine.start graph).loop options.stepLimit

theorem halts_of_loop (looped : graph.loop options (begun options.stepLimit before) =
      some (ending, after)) : graph.Halts options before ending after := by
  rcases Machine.loop_cases looped with ⟨limit, last, limit_eq, reaches, rfl⟩ |
    ⟨visits, last, between, ended, allows, reaches, visited, rfl⟩
  · have counted : last.pending.depth = last.pending.waiting.length :=
      (reaches.sound Pending.sound_empty).counted
    have steps_eq : last.steps = limit.toNat := reaches.steps_eq.trans (Nat.zero_add _)
    rw [Machine.stats, steps_eq, counted]
    exact .stops limit_eq reaches reaches.peak_isGreatest
  · rcases ended with reason | ⟨value, stats⟩
    · exact .panics reaches allows visited
    · have steps_eq : last.steps = visits := reaches.steps_eq.trans (Nat.zero_add _)
      have stats_eq : stats = ⟨visits + 1, last.pending.peak⟩ := by
        have visits := (Machine.visits_iff _ _ _ _).mp visited
        cases visits
        rw [steps_eq]
      subst stats_eq
      exact .finishes reaches allows reaches.peak_isGreatest visited

theorem Halts.loop_eq (halts : graph.Halts options before ending after) :
    graph.loop options (begun options.stepLimit before) = some (ending, after) := by
  cases halts with
  | finishes reaches allows _ finished =>
      exact Machine.loop_of_ends (reaches.ends (.finished finished)) allows
  | panics reaches allows panicked =>
      exact Machine.loop_of_ends (reaches.ends (.panicked panicked)) allows
  | @stops limit peak last _ limit_eq reaches deepest =>
      have counted : last.pending.depth = last.pending.waiting.length :=
        (reaches.sound Pending.sound_empty).counted
      have steps_eq : last.steps = limit.toNat := reaches.steps_eq.trans (Nat.zero_add _)
      have peak_eq : last.pending.peak = peak := reaches.peak_isGreatest.unique deepest
      rw [limit_eq] at reaches ⊢
      have looped := Machine.driveWithin_of_reaches reaches
      rw [Machine.stats, steps_eq, counted, peak_eq] at looped
      rw [loop, limit_eq]
      exact looped

/-- The whole of an interpretation: its visits between the report of its start and that of its end.
Left by a panic it reports no end. -/
def interpret (graph : Graph σ V V ρ) (options : RunOptions) : Call σ (Halt V) := do
  Host.report (.started options.stepLimit)
  let halt ← graph.loop options
  Host.report halt.event
  return halt

/-- The world in which an interpretation has reported its end. -/
def closed (ending : Except Panic (Halt V)) (world : σ) : σ :=
  match ending with
  | .ok halt => Host.emit halt.event world
  | .error _ => world

theorem interpret_apply (graph : Graph σ V V ρ) (options : RunOptions) (before : σ) :
    graph.interpret options before =
      (graph.loop options (begun options.stepLimit before)).map fun (ending, between) =>
        (ending, closed ending between) := by
  rw [interpret, bind_report, Call.bind_apply, ← begun]
  rcases graph.loop options (begun options.stepLimit before) with _ | ⟨_ | halt, between⟩ <;> rfl

theorem interpret_eq_some_iff :
    graph.interpret options before = some (ending, after) ↔
      ∃ between, graph.Halts options before ending between ∧ after = closed ending between := by
  rw [interpret_apply]
  constructor
  · intro interpreted
    rcases Option.map_eq_some_iff.mp interpreted with ⟨⟨_, between⟩, looped, same⟩
    cases same
    exact ⟨between, halts_of_loop looped, rfl⟩
  · rintro ⟨between, halts, rfl⟩
    rw [halts.loop_eq, Option.map_some]

/-- A run of any kind is an interpretation whose end is turned into an answer, once there is room
for its stack. -/
theorem runWith_eq_interpret (graph : Graph σ V V ρ) (options : RunOptions) :
    graph.runWith options = (do
      Call.reserve Machine.continuationBytes options.stackCapacity.toNat
      options.answer <$> graph.interpret options) := by
  by_cases room : Machine.RoomFor options.stackCapacity
  · funext before
    rw [Call.reserve_of_le room, pure_bind, Call.map_apply, interpret_apply]
    rcases options with ⟨_ | limit, capacity⟩
    · have runWith_eq : graph.runWith ⟨none, capacity⟩ =
          Except.ok <$> graph.runToEnd ⟨none, capacity⟩ := (map_eq_pure_bind _ _).symm
      rw [runWith_eq, Call.map_apply, runToEnd_apply room, loop, Machine.loop, Call.map_apply]
      rcases (Machine.start graph).drive (begun none before) with
        _ | ⟨_ | ⟨value, stats⟩, between⟩ <;> rfl
    · have runWith_eq : graph.runWith ⟨some limit, capacity⟩ =
          graph.runWithin limit ⟨some limit, capacity⟩ := rfl
      rw [runWith_eq, runWithin_apply room, loop, Machine.loop]
      rcases (Machine.start graph).driveWithin limit.toNat (begun (some limit) before)
        with _ | ⟨_ | halt, between⟩ <;> rfl
  · rw [runWith_of_no_room room, Call.reserve_of_lt (Nat.not_le.mp room)]
    rfl

theorem runWith_eq_some_iff {answer : Except Panic (Except RunError (Completed V))}
    (room : Machine.RoomFor options.stackCapacity) :
    graph.runWith options before = some (answer, after) ↔
      ∃ ending between, graph.Halts options before ending between ∧
        answer = ending.map options.answer ∧ after = closed ending between := by
  rw [runWith_eq_interpret, Call.reserve_of_le room, pure_bind, Call.map_apply]
  constructor
  · intro ran
    rcases Option.map_eq_some_iff.mp ran with ⟨⟨ending, ended⟩, interpreted, same⟩
    cases same
    rcases interpret_eq_some_iff.mp interpreted with ⟨between, halts, rfl⟩
    exact ⟨ending, between, halts, rfl, rfl⟩
  · rintro ⟨ending, between, halts, rfl, rfl⟩
    rw [interpret_eq_some_iff.mpr ⟨between, halts, rfl⟩, Option.map_some]

/-- A run with any options halts, or there is no room for its stack and it does nothing at all. -/
theorem halts_or_refused {answer : Except Panic (Except RunError (Completed V))}
    (ran : graph.runWith options before = some (answer, after)) :
    (Machine.RoomFor options.stackCapacity ∧
      ∃ ending between, graph.Halts options before ending between ∧
        answer = ending.map options.answer ∧ after = closed ending between) ∨
    (¬ Machine.RoomFor options.stackCapacity ∧
      answer = .error (.text "capacity overflow") ∧ after = before) := by
  by_cases room : Machine.RoomFor options.stackCapacity
  · exact .inl ⟨room, (runWith_eq_some_iff room).mp ran⟩
  · rw [runWith_of_no_room room] at ran
    cases ran
    exact .inr ⟨room, rfl, rfl⟩

/-- The value of an interpretation without limit. -/
def valueOf : Halt V → Call σ V
  | .finished value _ => pure value
  | .limitReached _ _ => Call.panic "an unbounded run has no step limit to reach"

theorem run_eq_interpret (graph : Graph σ V V ρ) :
    graph.run = graph.interpret .unbounded >>= valueOf := by
  funext before
  rw [run_eq, bind_report, Call.bind_apply, Call.bind_apply, interpret_apply, loop,
    RunOptions.unbounded, Machine.loop, Call.map_apply, ← begun]
  rcases (Machine.start graph).drive (begun none before) with
    _ | ⟨_ | ⟨value, stats⟩, between⟩ <;> rfl

theorem run_eq_ok_iff {value : V} :
    graph.run before = some (.ok value, after) ↔
      ∃ stats between, graph.Halts .unbounded before (.ok (.finished value stats)) between ∧
        after = Host.emit (.finished stats) between := by
  rw [run_eq_interpret, Call.bind_eq_ok_iff]
  constructor
  · rintro ⟨halt, between, interpreted, valued⟩
    rcases interpret_eq_some_iff.mp interpreted with ⟨ended, halts, rfl⟩
    cases halt with
    | finished found stats =>
        cases valued
        exact ⟨stats, ended, halts, rfl⟩
    | limitReached => cases valued
  · rintro ⟨stats, between, halts, rfl⟩
    exact ⟨_, _, interpret_eq_some_iff.mpr ⟨between, halts, rfl⟩, rfl⟩

theorem run_eq_error_iff {reason : Panic} :
    graph.run before = some (.error reason, after) ↔
      graph.Halts .unbounded before (.error reason) after := by
  rw [run_eq_interpret, Call.bind_eq_some_iff]
  constructor
  · rintro (⟨_, interpreted, same⟩ | ⟨halt, between, interpreted, valued⟩)
    · cases same
      rcases interpret_eq_some_iff.mp interpreted with ⟨_, halts, rfl⟩
      exact halts
    · rcases interpret_eq_some_iff.mp interpreted with ⟨_, halts, rfl⟩
      -- Without a limit none is reached.
      cases halts with
      | finishes => cases valued
      | stops limit_eq => cases limit_eq
  · intro halts
    exact .inl ⟨reason, interpret_eq_some_iff.mpr ⟨after, halts, rfl⟩, rfl⟩

theorem tryRun_apply (graph : Graph σ V V ρ) (before : σ) :
    graph.tryRun before = (graph.run before).map fun
      | (.ok value, after) => (.ok (.ok value), after)
      | (.error reason, after) =>
        (.ok (.error (.panicked reason.message)),
          Host.emit (.panicCaptured (.panicked reason.message)) after) :=
  Host.capture_apply graph.run before

end Graph

end Deferral

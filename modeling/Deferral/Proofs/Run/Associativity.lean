import Deferral.Proofs.Run.Above
import Deferral.Proofs.Run.Parts
import Deferral.Proofs.Run.Recursion

/-!
# Nesting binds to the left and to the right

Three computations in a row, where each gets the value of the one before, can be nested in two ways.
Both run the same graphs in the same worlds, so they have the same meaning. They also make the same
visits but for the order of two: nested to the left, both binds are visited at the beginning; nested
to the right, the second one is visited when the first graph has its value. So the number of visits
is the same, and nested to the left the first graph runs below one more continuation.
-/

namespace Deferral.Graph

variable {σ V ρ : Type} [Equations ρ σ V V]

section Endless

variable {graph predecessor : Graph σ V V ρ} {resume : Continuation σ V V ρ} {before : σ}

/-- Neither the visits made before nor a mark on an empty stack decide whether a run has an end. -/
theorem endless_raised_iff {more steps : Nat} :
    (⟨graph, Pending.empty.raise more, steps⟩ : Machine σ V ρ).Endless before ↔
      (Machine.start graph).Endless before := by
  rw [← Machine.start_above graph (Pending.depth_le_peak_raise _ _)]
  constructor
  · intro endless
    exact endless.of_above rfl Pending.sound_empty
  · intro endless
    exact endless.above Pending.sound_empty

/-- A bind makes visit after visit without end when its predecessor does, or when the graph that it
goes on with does. -/
theorem endless_of_bind_iff (shape_eq : graph.shape = .bind predecessor resume) :
    (Machine.start graph).Endless before ↔
      (Machine.start predecessor).Endless before ∨
        ∃ fed first between next resumed, predecessor.Finishes before fed first between ∧
          resume fed between = some (.ok next, resumed) ∧
          (Machine.start next).Endless resumed := by
  constructor
  · intro endless
    rcases (Machine.start predecessor).ends_or_endless_or_hangs before with
      ⟨visits, ending, between, ends⟩ | alone | ⟨visits, hangs⟩
    · rcases ending with reason | ⟨fed, first⟩
      · exact (endless.not_ends (Machine.ends_of_predecessor_panics shape_eq ends)).elim
      · rcases called : resume fed between with _ | ⟨reason | next, resumed⟩
        · exact (endless.not_hangs (Machine.hangs_of_resume_hangs ends shape_eq called)).elim
        · exact (endless.not_ends (Machine.ends_of_resume_panics ends shape_eq called)).elim
        · have finishes : predecessor.Finishes before fed first between := ends.drive_eq
          have rest := endless.rest (Machine.reaches_of_resumed ends shape_eq called)
          exact .inr ⟨fed, first, between, next, resumed, finishes, called,
            endless_raised_iff.mp rest⟩
    · exact .inl alone
    · exact (endless.not_hangs (Machine.hangs_of_predecessor_hangs shape_eq hangs)).elim
  · rintro (alone | ⟨fed, first, between, next, resumed, finishes, called, next_endless⟩)
    · exact Machine.endless_of_predecessor shape_eq alone
    · rcases Machine.exists_ends_of_drive _ before _ finishes with ⟨visits, ends⟩
      apply (Machine.reaches_of_resumed ends shape_eq called).endless
      exact endless_raised_iff.mpr next_endless

end Endless

variable (graph : Graph σ V V ρ) (function further : Continuation σ V V ρ)

/-- Both functions applied, with the bind for the second one around the bind for the first one. -/
def nestedLeft : Graph σ V V ρ := (graph.flatMap function).flatMap further

/-- Both functions applied, with the bind for the second one around what the first one answers. -/
def nestedRight : Graph σ V V ρ := graph.flatMap fun value => do
  return (← function value).flatMap further

/-- A graph, the graph that one function makes of its value and the graph that another function
makes of the value of that, run one after the other. -/
def FinishesInTurn (before : σ) (first second third : RunStats) (value : V) (after : σ) : Prop :=
  ∃ fed between next resumed later world last called,
    graph.Finishes before fed first between ∧ function fed between = some (.ok next, resumed) ∧
    next.Finishes resumed later second world ∧ further later world = some (.ok last, called) ∧
    last.Finishes called value third after

variable {graph function further} {before after : σ} {value : V} {stats : RunStats}

theorem nestedLeft_finishes_iff :
    (graph.nestedLeft function further).Finishes before value stats after ↔
      ∃ first second third,
        graph.FinishesInTurn function further before first second third value after ∧
        stats = (first.bind second).bind third := by
  rw [nestedLeft, finishes_of_bind_iff (shape_flatMap _ _)]
  constructor
  · rintro ⟨later, inner, world, last, called, third, inner_finishes, further_called,
      last_finishes, rfl⟩
    rcases (finishes_of_bind_iff (shape_flatMap _ _)).mp inner_finishes with
      ⟨fed, first, between, next, resumed, second, finishes, called_eq, next_finishes, rfl⟩
    exact ⟨first, second, third, ⟨fed, between, next, resumed, later, world, last, called, finishes,
      called_eq, next_finishes, further_called, last_finishes⟩, rfl⟩
  · rintro ⟨first, second, third, ⟨fed, between, next, resumed, later, world, last, called,
      finishes, called_eq, next_finishes, further_called, last_finishes⟩, rfl⟩
    refine ⟨later, first.bind second, world, last, called, third, ?_, further_called,
      last_finishes, rfl⟩
    apply (finishes_of_bind_iff (shape_flatMap _ _)).mpr
    exact ⟨fed, first, between, next, resumed, second, finishes, called_eq, next_finishes, rfl⟩

theorem nestedRight_finishes_iff :
    (graph.nestedRight function further).Finishes before value stats after ↔
      ∃ first second third,
        graph.FinishesInTurn function further before first second third value after ∧
        stats = first.bind (second.bind third) := by
  rw [nestedRight, finishes_of_bind_iff (shape_flatMap _ _)]
  constructor
  · rintro ⟨fed, first, between, made, resumed, inner, finishes, made_eq, inner_finishes, rfl⟩
    rcases Call.bind_eq_ok_iff.mp made_eq with ⟨next, world, called_eq, returned⟩
    cases returned
    rcases (finishes_of_bind_iff (shape_flatMap _ _)).mp inner_finishes with
      ⟨later, second, world, last, called, third, next_finishes, further_called, last_finishes, rfl⟩
    exact ⟨first, second, third, ⟨fed, between, next, resumed, later, world, last, called, finishes,
      called_eq, next_finishes, further_called, last_finishes⟩, rfl⟩
  · rintro ⟨first, second, third, ⟨fed, between, next, resumed, later, world, last, called,
      finishes, called_eq, next_finishes, further_called, last_finishes⟩, rfl⟩
    refine ⟨fed, first, between, next.flatMap further, resumed, second.bind third, finishes,
      Call.bind_eq_ok_iff.mpr ⟨next, resumed, called_eq, rfl⟩, ?_, rfl⟩
    apply (finishes_of_bind_iff (shape_flatMap _ _)).mpr
    exact ⟨later, second, world, last, called, third, next_finishes, further_called, last_finishes,
      rfl⟩

/-- Both nestings run the same three graphs, so they finish together. -/
theorem nested_finish_together {value' : V} {stats' : RunStats} {after' : σ}
    (left : (graph.nestedLeft function further).Finishes before value stats after)
    (right : (graph.nestedRight function further).Finishes before value' stats' after') :
    value = value' ∧ after = after' ∧ stats.steps = stats'.steps ∧
      (stats.peakStackDepth = stats'.peakStackDepth ∨
        stats.peakStackDepth = stats'.peakStackDepth + 1) := by
  rcases nestedLeft_finishes_iff.mp left with ⟨first, second, third, in_turn, rfl⟩
  have also := nestedRight_finishes_iff.mpr ⟨first, second, third, in_turn, rfl⟩
  rcases also.unique right with ⟨value_eq, rfl, after_eq⟩
  refine ⟨value_eq, after_eq, ?_, ?_⟩
  · simp only [RunStats.bind]
    omega
  · simp only [RunStats.bind]
    omega

theorem eval_nestedLeft :
    (graph.nestedLeft function further).eval = (graph.nestedRight function further).eval := by
  rw [nestedLeft, nestedRight, eval_of_bind (shape_flatMap _ _), eval_of_bind (shape_flatMap _ _),
    eval_of_bind (shape_flatMap _ _)]
  simp only [bind_assoc, pure_bind]
  refine bind_congr fun fed => bind_congr fun next => ?_
  rw [eval_of_bind (shape_flatMap _ _)]

theorem endless_nested_iff :
    (Machine.start (graph.nestedLeft function further)).Endless before ↔
      (Machine.start (graph.nestedRight function further)).Endless before := by
  rw [nestedLeft, nestedRight, endless_of_bind_iff (shape_flatMap _ _),
    endless_of_bind_iff (shape_flatMap _ _), endless_of_bind_iff (shape_flatMap _ _)]
  constructor
  · rintro ((endless | ⟨fed, first, between, next, resumed, finishes, called, endless⟩) |
      ⟨later, inner, world, last, called, inner_finishes, further_called, endless⟩)
    · exact .inl endless
    · right
      refine ⟨fed, first, between, next.flatMap further, resumed, finishes,
        Call.bind_eq_ok_iff.mpr ⟨next, resumed, called, rfl⟩, ?_⟩
      exact (endless_of_bind_iff (shape_flatMap _ _)).mpr (.inl endless)
    · right
      rcases (finishes_of_bind_iff (shape_flatMap _ _)).mp inner_finishes with
        ⟨fed, first, between, next, resumed, second, finishes, called_eq, next_finishes, _⟩
      refine ⟨fed, first, between, next.flatMap further, resumed, finishes,
        Call.bind_eq_ok_iff.mpr ⟨next, resumed, called_eq, rfl⟩, ?_⟩
      apply (endless_of_bind_iff (shape_flatMap _ _)).mpr
      exact .inr ⟨later, second, world, last, called, next_finishes, further_called, endless⟩
  · rintro (endless | ⟨fed, first, between, made, resumed, finishes, made_eq, endless⟩)
    · exact .inl (.inl endless)
    · rcases Call.bind_eq_ok_iff.mp made_eq with ⟨next, world, called, returned⟩
      cases returned
      rcases (endless_of_bind_iff (shape_flatMap _ _)).mp endless with
        endless | ⟨later, second, world, last, further_world, next_finishes, further_called,
          endless⟩
      · exact .inl (.inr ⟨fed, first, between, next, resumed, finishes, called, endless⟩)
      · right
        have inner_finishes := (finishes_of_bind_iff (shape_flatMap graph function)).mpr
          ⟨fed, first, between, next, resumed, second, finishes, called, next_finishes, rfl⟩
        exact ⟨later, _, world, last, further_world, inner_finishes, further_called, endless⟩

variable [Host σ V]

/-- Binds can be nested either way. The loop has the same value, effects and panic, and goes on
without end in the same worlds. Where it finishes it has made the same number of visits, so that a
limit stops either both or neither, and the peaks differ by what the first graph costs: nested to
the left it runs below two continuations and nested to the right below one. Where there is no room
for the stack, neither is run. -/
theorem flatMap_assoc (graph : Graph σ V V ρ) (function further : Continuation σ V V ρ) :
    let left := (graph.flatMap function).flatMap further
    let right := graph.flatMap fun value => do return (← function value).flatMap further
    Prod.fst <$> (Machine.start left).drive = Prod.fst <$> (Machine.start right).drive ∧
    (∀ before, (Machine.start left).Endless before ↔ (Machine.start right).Endless before) ∧
    (∀ before value stats after, left.Finishes before value stats after ↔
      ∃ first second third,
        graph.FinishesInTurn function further before first second third value after ∧
        stats.steps = 2 + first.steps + second.steps + third.steps ∧
        stats.peakStackDepth = max (2 + first.peakStackDepth)
          (max (1 + second.peakStackDepth) third.peakStackDepth)) ∧
    (∀ before value stats after, right.Finishes before value stats after ↔
      ∃ first second third,
        graph.FinishesInTurn function further before first second third value after ∧
        stats.steps = 2 + first.steps + second.steps + third.steps ∧
        stats.peakStackDepth = max (1 + first.peakStackDepth)
          (max (1 + second.peakStackDepth) third.peakStackDepth)) ∧
    (∀ before value stats after value' stats' after', left.Finishes before value stats after →
      right.Finishes before value' stats' after' →
      stats.steps = stats'.steps ∧
        (stats.peakStackDepth = stats'.peakStackDepth ∨
          stats.peakStackDepth = stats'.peakStackDepth + 1)) ∧
    (∀ limit capacity world, Machine.RoomFor capacity →
      (∀ value stats after value' stats' after',
        left.Finishes (begun (some limit) world) value stats after →
        right.Finishes (begun (some limit) world) value' stats' after' →
        (stats.steps ≤ limit.toNat →
          left.runWith ⟨some limit, capacity⟩ world =
            some (.ok (.ok ⟨value, stats⟩), Host.emit (.finished stats) after) ∧
          right.runWith ⟨some limit, capacity⟩ world =
            some (.ok (.ok ⟨value, stats'⟩), Host.emit (.finished stats') after)) ∧
        (limit.toNat < stats.steps →
          left.Stopped limit capacity world ∧ right.Stopped limit capacity world)) ∧
      ((Machine.start left).Endless (begun (some limit) world) →
        left.Stopped limit capacity world ∧ right.Stopped limit capacity world)) ∧
    ∀ limit capacity world, ¬ Machine.RoomFor capacity →
      left.runWith ⟨limit, capacity⟩ world = some (.error (.text "capacity overflow"), world) ∧
      right.runWith ⟨limit, capacity⟩ world =
        some (.error (.text "capacity overflow"), world) := by
  intro left right
  refine ⟨?_, fun before => endless_nested_iff, ?_, ?_, ?_, ?_, ?_⟩
  · rw [Machine.drive_start, Machine.drive_start, fst_measured, fst_measured]
    exact eval_nestedLeft
  · intro before value stats after
    refine nestedLeft_finishes_iff.trans ?_
    refine exists₃_congr fun first second third => and_congr_right fun _ => ?_
    rw [RunStats.eq_bind_iff]
    simp only [RunStats.bind]
    omega
  · intro before value stats after
    refine nestedRight_finishes_iff.trans ?_
    refine exists₃_congr fun first second third => and_congr_right fun _ => ?_
    rw [RunStats.eq_bind_iff]
    simp only [RunStats.bind]
    omega
  · intro before value stats after value' stats' after' left_finishes right_finishes
    exact (nested_finish_together left_finishes right_finishes).2.2
  · intro limit capacity world room
    refine ⟨?_, fun endless => ?_⟩
    · intro value stats after value' stats' after' left_finishes right_finishes
      rcases nested_finish_together left_finishes right_finishes with ⟨rfl, rfl, steps_eq, _⟩
      constructor
      · intro le
        exact ⟨left_finishes.runWith_of_le room le,
          right_finishes.runWith_of_le room (steps_eq ▸ le)⟩
      · intro less
        exact ⟨left_finishes.stopped_of_lt room less,
          right_finishes.stopped_of_lt room (steps_eq ▸ less)⟩
    · exact ⟨stopped_of_endless room endless,
        stopped_of_endless room (endless_nested_iff.mp endless)⟩
  · intro limit capacity world no_room
    exact ⟨congrFun (runWith_of_no_room no_room left) world,
      congrFun (runWith_of_no_room no_room right) world⟩

end Deferral.Graph

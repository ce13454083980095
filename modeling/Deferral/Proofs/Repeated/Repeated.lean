import Deferral.Proofs.Endless.Forever
import Deferral.Proofs.OneShot.Script
import Deferral.Proofs.Repeated.Chained

/-!
# Repeated computations

A repetition of a typed computation is as many runs of it, one strictly after the other. Only a
value of another type than the computation has could be refused, and then the repetition panics.
-/

namespace Deferral.AsyncDeferred

open AsyncGraph

variable {ι σ ρ : Type} {Base : ι → Type} {t : Ty ι} [DecidableEq ι]

/-- A repetition written out as binds, with the items so far, the last one first. -/
def chained (body : AsyncDeferred Base σ ρ t) :
    Nat → List (t.Value Base) → AsyncDeferred Base σ ρ (.list t)
  | 0, items => .of items.reverse
  | left + 1, items => body.flatMap fun value => return chained body left (value :: items)

/-- What a repetition makes of the value of a run. -/
abbrev itemOf (t : Ty ι) (value : Tagged Base) : Call σ (t.Value Base) :=
  value.expect Promise.mismatch t

/-- What a repetition makes of its items. -/
abbrev listOf (t : Ty ι) (items : List (t.Value Base)) : Tagged Base :=
  ⟨.list t, items⟩

theorem chained_graph (body : AsyncDeferred Base σ ρ t) (left : Nat)
    (items : List (t.Value Base)) :
    (body.chained left items).graph = body.graph.chained (itemOf t) (listOf t) left items := by
  induction left generalizing items with
  | zero => rfl
  | succ left ih =>
      have next_eq : checked (fun value => pure (body.chained left (value :: items))) =
          body.graph.nextLink (itemOf t) (listOf t) left items := by
        funext value
        simp only [checked, nextLink, itemOf, pure_bind, ih]
      exact congrArg (Graph.flatMap body.graph) next_eq

theorem itemOf_mk (value : t.Value Base) (world : σ) :
    (itemOf t ⟨t, value⟩ : Call σ _) world = some (.ok value, world) :=
  congrFun (Tagged.expect_mk Promise.mismatch t value) world

theorem itemOf_ne_none (t : Ty ι) (value : Tagged Base) (world : σ) :
    (itemOf t value : Call σ _) world ≠ none := by
  rw [itemOf, Tagged.expect]
  cases value.as? t <;> exact Option.some_ne_none _

theorem itemOf_eq_error_iff {value : Tagged Base} {reason : Panic} {before after : σ} :
    (itemOf t value : Call σ _) before = some (.error reason, after) ↔
      value.type ≠ t ∧ reason = .text Promise.mismatch ∧ after = before := by
  rw [itemOf, Tagged.expect_eq_error_iff, @eq_comm σ before after]

theorem itemOf_agreed {same : σ → σ → Prop} (value : Tagged Base) {before before' : σ}
    (worlds : same before before') :
    Agreed same Eq ((itemOf t value : Call σ _) before) ((itemOf t value : Call σ _) before') := by
  rw [itemOf, Tagged.expect]
  cases value.as? t with
  | none => exact .panicked worlds
  | some item => exact .returned worlds rfl

variable [Host σ (Tagged Base)] [AsyncDefinitions Base ρ σ]

/-- A repetition is so many runs one after the other, each from the world that the one before left
and only when that one is ready. It is ready in the poll in which the last run is, with all the
items, and otherwise comes to what the run that is under way comes to. Apart from what is reported,
it agrees with the binds that it stands for. -/
theorem repeated_in_turn (body : AsyncDeferred Base σ ρ t) {count : Nat} (le : count ≤ mostItems)
    (world : σ) :
    let run : Future σ (Tagged Base) ρ := (body.repeated count).run.future
    let ran := body.graph.InTurn (itemOf t) count
    let next := body.graph.TurnPollsTo (itemOf t) count
    (∀ breaks value after, run.PollsTo breaks world (some (.ok (.ready value), after)) ↔
      ∃ turns between, ran turns world between ∧ turns.length = count ∧
        breaks = turns.flatMap Turn.breaks ∧ value = listOf t (turns.map Turn.item) ∧
        after = Host.emit (.asyncFinished 0) between) ∧
    (∀ breaks wake rest after,
      run.PollsTo breaks world (some (.ok (.pending wake rest), after)) ↔
        ∃ turns left, next turns breaks world (some (.ok (.pending wake left), after)) ∧
          rest = body.graph.inTurn (itemOf t) (listOf t) count (count - (turns.length + 1))
            (turns.map Turn.item).reverse left) ∧
    (∀ breaks reason after, run.PollsTo breaks world (some (.error reason, after)) ↔
      ∃ turns, next turns breaks world (some (.error reason, after)) ∨
        ∃ value, next turns breaks world (some (.ok (.ready value), after)) ∧
          value.type ≠ t ∧ reason = .text Promise.mismatch) ∧
    (∀ breaks, run.PollsTo breaks world none ↔ ∃ turns, next turns breaks world none) ∧
    (∀ turns after, ran turns world after →
      (turns.flatMap Turn.breaks).length = suspensions turns) ∧
    (count = 0 → run.poll world =
      some (.ok (.ready (listOf t [])), Host.emit (.asyncFinished 0) world)) ∧
    (∀ same, Inaudible same → body.graph.Blind same →
      FuturesAgree same run (body.chained count []).run.future) ∧
    ((∀ event (world : σ), Host.emit event world = world) →
      FuturesAgree Eq run (body.chained count []).run.future) := by
  intro run ran next
  have polls_iff : ∀ breaks answer, run.PollsTo breaks world answer ↔
      body.graph.RepeatedPoll (itemOf t) (listOf t) count breaks world answer := by
    intro breaks answer
    exact repeated_pollsTo_iff le
  have agrees : ∀ same, Inaudible same → body.graph.Blind same →
      FuturesAgree same run (body.chained count []).run.future := by
    intro same inaudible blind
    have agree := repeated_agrees_chained inaudible itemOf_agreed blind (listOf t) le
    rw [← chained_graph] at agree
    exact agree
  simp only [polls_iff]
  refine ⟨?_, ?_, ?_, ?_, ?_, ?_, agrees, ?_⟩
  · intro breaks value after
    constructor
    · rintro (⟨completed, length_eq⟩ | _)
      exact ⟨_, _, completed, length_eq, rfl, rfl, rfl⟩
    · rintro ⟨turns, between, completed, length_eq, rfl, rfl, rfl⟩
      exact .ready completed length_eq
  · intro breaks wake rest after
    constructor
    · rintro (_ | polls)
      exact ⟨_, _, polls, rfl⟩
    · rintro ⟨turns, left, polls, rfl⟩
      exact .pending polls
  · intro breaks reason after
    constructor
    · intro poll
      cases poll with
      | panics polls => exact ⟨_, .inl polls⟩
      | refused polls refused =>
          rcases itemOf_eq_error_iff.mp refused with ⟨other, reason_eq, rfl⟩
          exact ⟨_, .inr ⟨_, polls, other, reason_eq⟩⟩
    · rintro ⟨turns, polls | ⟨value, polls, other, reason_eq⟩⟩
      · exact .panics polls
      · exact .refused polls (itemOf_eq_error_iff.mpr ⟨other, reason_eq, rfl⟩)
  · intro breaks
    constructor
    · intro poll
      cases poll with
      | hangs polls => exact ⟨_, polls⟩
      | held _ held => exact absurd held (itemOf_ne_none t _ _)
    · rintro ⟨turns, polls⟩
      exact .hangs polls
  · intro turns after completed
    exact length_flatMap_breaks turns
  · rintro rfl
    have ready : body.graph.RepeatedPoll (itemOf t) (listOf t) 0 [] world _ :=
      .ready (.start world) rfl
    exact Future.pollsTo_nil_iff.mp ((polls_iff _ _).mpr ready)
  · intro deaf
    exact agrees Eq (.eq deaf) (.eq body.graph)

section Sample

/-- The sample waits twice and is ready in the third poll, whatever happens between the polls. -/
theorem sampleWaiting_ready (world first second : TypedSession SampleBase Nat) :
    (Future.ofGraph sampleWaiting.graph).PollsTo [(world, first), (first, second)] world
      (some (.ok (.ready ⟨.base (), 1 + second.user⟩),
        Host.emit (.asyncFinished 0) { second with user := second.user + 1 })) := by
  apply Future.pollsTo_ready_iff.mpr
  have visited : (Future.ofGraph sampleWaiting.graph).Spans [] world _ world :=
    .went (.start _ _) rfl rfl
  have waited := (visited.resumed rfl first).resumed rfl second
  exact ((waited.went rfl rfl).went rfl rfl).went rfl rfl

/-- Two runs of the sample wait four times in all, and others may change the state meanwhile. -/
theorem sampleWaiting_repeated : 2 ≤ mostItems ∧ ∃ breaks after,
    breaks.map (fun turn => turn.2.user) = [3, 4, 8, 9] ∧
      (sampleWaiting.repeated 2).run.future.PollsTo breaks (Session.start 0)
        (some (.ok (.ready (listOf (.base ()) [(5 : Nat), (10 : Nat)])), after)) := by
  have le : 2 ≤ mostItems := by decide
  have once : sampleWaiting.graph.InTurn (itemOf (.base ())) 2 _ (Session.start 0) _ :=
    (InTurn.start _).turn (sampleWaiting_ready _ (Session.start 3) (Session.start 4))
      (itemOf_mk _ _)
  have twice := once.turn
    (sampleWaiting_ready _ (Session.start 8) (Session.start 9)) (itemOf_mk _ _)
  have ready := ((repeated_in_turn sampleWaiting le (.start 0)).1 _ _ _).mpr
    ⟨_, _, twice, rfl, rfl, rfl, rfl⟩
  exact ⟨le, _, _, rfl, ready⟩

end Sample

end Deferral.AsyncDeferred

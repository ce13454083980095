import Deferral.Future.AsyncGraph
import Deferral.Proofs.Future.Above

/-!
# One run after the other

A repetition is driven by one who polls it, and each run of its body is a run on its own: it is
polled until it is ready, suspended as often as it likes, and only then the next run begins, in the
world that was left. `AsyncGraph.InTurn` tells the runs that are over, each with the breaks between
its polls and the item that was made of its value.

Every future that a repetition becomes is known in this way: `AsyncGraph.spans_repeated_iff` says
which runs are over and where the next one is.
-/

namespace Deferral

namespace AsyncGraph

variable {σ V ρ α : Type}

/-- A run that is over: the breaks between its polls and the item that was made of its value. -/
structure Turn (σ α : Type) where
  breaks : List (σ × σ)
  item : α

/-- How often runs are suspended in all. -/
def suspensions : List (Turn σ α) → Nat
  | [] => 0
  | turn :: turns => turn.breaks.length + suspensions turns

theorem length_flatMap_breaks (turns : List (Turn σ α)) :
    (turns.flatMap Turn.breaks).length = suspensions turns := by
  induction turns with
  | nil => rfl
  | cons turn turns ih => rw [List.flatMap_cons, List.length_append, ih, suspensions]

/-- A repetition between two runs. -/
def betweenTurns [Host σ V] (body : AsyncGraph σ V ρ) (accept : V → Call σ α)
    (collect : List α → V) (count left : Nat) (items : List α) : Future σ V ρ :=
  .await (rounds body accept collect count left items) .empty

/-- A repetition in the middle of a run, with so many runs left after it. -/
def inTurn [Host σ V] (body : AsyncGraph σ V ρ) (accept : V → Call σ α) (collect : List α → V)
    (count left : Nat) (items : List α) (inner : Future σ V ρ) : Future σ V ρ :=
  .await (.chain inner fun value => (do
    let item ← accept value
    return rounds body accept collect count left (item :: items) : Call σ (Future σ V ρ))) .empty

variable [Host σ V] [Equations ρ σ (Future σ V ρ) V]

/-- Runs that are over, the first one first. Each was reported before it began. -/
inductive InTurn (body : AsyncGraph σ V ρ) (accept : V → Call σ α) (count : Nat) :
    List (Turn σ α) → σ → σ → Prop
  | start (world : σ) : InTurn body accept count [] world world
  | turn {turns : List (Turn σ α)} {breaks : List (σ × σ)} {before between here after : σ}
      {value : V} {item : α} (earlier : InTurn body accept count turns before between)
      (ran : (Future.ofGraph body).PollsTo breaks
        (Host.emit (.repetition turns.length count) between) (some (.ok (.ready value), here)))
      (accepted : accept value here = some (.ok item, after)) :
      InTurn body accept count (turns ++ [⟨breaks, item⟩]) before after

/-- Runs are over, and the next one, after which so many are left, has come to a certain place. -/
inductive Amid (body : AsyncGraph σ V ρ) (accept : V → Call σ α) (count : Nat) :
    List (Turn σ α) → Nat → List (σ × σ) → σ → Future σ V ρ → σ → Prop
  | ran {turns : List (Turn σ α)} {left : Nat} {more : List (σ × σ)} {before between after : σ}
      {inner : Future σ V ρ} (completed : InTurn body accept count turns before between)
      (left_eq : turns.length + (left + 1) = count)
      (ran : Future.Spans more (.ofGraph body)
        (Host.emit (.repetition turns.length count) between) inner after) :
      Amid body accept count turns left (turns.flatMap Turn.breaks ++ more) before inner after

/-- Where a repetition is. -/
inductive Repeating (body : AsyncGraph σ V ρ) (accept : V → Call σ α) (collect : List α → V)
    (count : Nat) : List (Turn σ α) → List (σ × σ) → σ → Future σ V ρ → σ → Prop
  | start (world : σ) : Repeating body accept collect count [] [] world
      (.ofGraph (body.repeatedWith accept collect count)) world
  | between {turns : List (Turn σ α)} {left : Nat} {before after : σ}
      (completed : InTurn body accept count turns before after)
      (left_eq : turns.length + left = count) :
      Repeating body accept collect count turns (turns.flatMap Turn.breaks) before
        (betweenTurns body accept collect count left (turns.map Turn.item).reverse) after
  | inside {turns : List (Turn σ α)} {left : Nat} {breaks : List (σ × σ)} {before after : σ}
      {inner : Future σ V ρ} (amid : Amid body accept count turns left breaks before inner after) :
      Repeating body accept collect count turns breaks before
        (inTurn body accept collect count left (turns.map Turn.item).reverse inner) after
  | finished {turns : List (Turn σ α)} {before after : σ}
      (completed : InTurn body accept count turns before after)
      (length_eq : turns.length = count) :
      Repeating body accept collect count turns (turns.flatMap Turn.breaks) before
        (.ready (collect (turns.map Turn.item))) (Host.emit (.asyncFinished 0) after)

variable {body : AsyncGraph σ V ρ} {accept : V → Call σ α} {collect : List α → V}
  {count left : Nat} {turns : List (Turn σ α)} {items : List α} {breaks : List (σ × σ)}
  {inner last next : Future σ V ρ} {before between after : σ}

section Step

theorem step_repeatedWith (le : count ≤ mostItems) (body : AsyncGraph σ V ρ)
    (accept : V → Call σ α) (collect : List α → V) :
    (Future.ofGraph (body.repeatedWith accept collect count)).step =
      pure (.went (betweenTurns body accept collect count count [])) := by
  rw [repeatedWith, fromAsync, Future.ofGraph, Future.step_visit_of_leaf (Graph.shape_leaf _),
    Call.reserve_of_le ((bytes_le_iff count).mpr le), pure_bind]
  rfl

theorem step_betweenTurns_zero (items : List α) :
    (betweenTurns body accept collect count 0 items).step before =
      some (.ok (.went (.ready (collect items.reverse))), Host.emit (.asyncFinished 0) before) := by
  have concludes : (betweenTurns body accept collect count 0 items).Concludes
      (collect items.reverse) 0 := .last _ rfl
  exact concludes.step before

theorem step_betweenTurns_succ (items : List α) :
    (betweenTurns body accept collect count (left + 1) items).step before =
      some (.ok (.went (inTurn body accept collect count left items (.ofGraph body))),
        Host.emit (.repetition (count - (left + 1)) count) before) := rfl

theorem step_betweenTurns_of_left {completed : Nat} (left_eq : completed + (left + 1) = count)
    (items : List α) :
    (betweenTurns body accept collect count (left + 1) items).step before =
      some (.ok (.went (inTurn body accept collect count left items (.ofGraph body))),
        Host.emit (.repetition completed count) before) := by
  obtain rfl : completed = count - (left + 1) := by omega
  exact step_betweenTurns_succ items

theorem step_inTurn (unfinished : inner.value? = none) :
    (inTurn body accept collect count left items inner).step =
      Stepped.map (inTurn body accept collect count left items) <$> inner.step := by
  rw [inTurn, Future.step_await rfl, Future.step_chain unfinished, Functor.map_map]
  simp only [Stepped.map_map]
  rfl

theorem step_inTurn_ready (value : V) :
    (inTurn body accept collect count left items (.ready value)).step =
      (fun item => .went (betweenTurns body accept collect count left (item :: items))) <$>
        accept value := by
  rw [inTurn, Future.step_await rfl, Future.step_chain_ready, Functor.map_map]
  simp only [bind_pure_comp, Functor.map_map]
  rfl

end Step

theorem Amid.start (completed : InTurn body accept count turns before between)
    (left_eq : turns.length + (left + 1) = count) :
    Amid body accept count turns left (turns.flatMap Turn.breaks) before (.ofGraph body)
      (Host.emit (.repetition turns.length count) between) := by
  rw [← List.append_nil (turns.flatMap Turn.breaks)]
  exact .ran completed left_eq (.start _ _)

theorem Repeating.between_turn {item : α}
    (completed : InTurn body accept count (turns ++ [⟨breaks, item⟩]) before after)
    (left_eq : turns.length + (left + 1) = count) :
    Repeating body accept collect count (turns ++ [⟨breaks, item⟩])
      (turns.flatMap Turn.breaks ++ breaks) before
      (betweenTurns body accept collect count left (item :: (turns.map Turn.item).reverse))
      after := by
  have left_eq : (turns ++ [(⟨breaks, item⟩ : Turn σ α)]).length + left = count := by
    rw [List.length_append, List.length_singleton]
    omega
  have between : Repeating body accept collect count _ _ before _ after :=
    .between completed left_eq
  simpa using between

theorem Repeating.went (le : count ≤ mostItems) (unfinished : last.value? = none)
    (repeating : Repeating body accept collect count turns breaks before last between)
    (stepped : last.step between = some (.ok (.went next), after)) :
    ∃ turns, Repeating body accept collect count turns breaks before next after := by
  cases repeating with
  | start =>
      rw [step_repeatedWith le] at stepped
      cases stepped
      exact ⟨[], .between (.start _) (Nat.zero_add count)⟩
  | @between _ left _ _ completed left_eq =>
      cases left with
      | zero =>
          rw [step_betweenTurns_zero, List.reverse_reverse] at stepped
          cases stepped
          exact ⟨turns, .finished completed left_eq⟩
      | succ left =>
          rw [step_betweenTurns_of_left left_eq] at stepped
          cases stepped
          exact ⟨turns, .inside (.start completed left_eq)⟩
  | @inside _ left _ _ _ inner amid =>
      rcases amid with ⟨completed, left_eq, ran⟩
      rcases value_eq : inner.value? with _ | value
      · rw [step_inTurn value_eq] at stepped
        rcases Stepped.went_of_map stepped with ⟨inner_next, inner_stepped, rfl⟩
        exact ⟨turns, .inside (.ran completed left_eq (ran.went value_eq inner_stepped))⟩
      · obtain rfl := Future.eq_ready_of_value? value_eq
        rw [step_inTurn_ready] at stepped
        rcases Call.map_eq_ok_iff.mp stepped with ⟨item, accepted, went_eq⟩
        cases went_eq
        have further := InTurn.turn completed (Future.pollsTo_ready_iff.mpr ran) accepted
        exact ⟨_, .between_turn further left_eq⟩
  | finished => cases unfinished

theorem Repeating.suspended {wake : Wake} (le : count ≤ mostItems)
    (repeating : Repeating body accept collect count turns breaks before last between)
    (stepped : last.step between = some (.ok (.suspended wake next), after)) :
    ∃ left inner rest, Amid body accept count turns left breaks before inner between ∧
      inner.step between = some (.ok (.suspended wake rest), after) ∧
      next = inTurn body accept collect count left (turns.map Turn.item).reverse rest := by
  cases repeating with
  | start =>
      rw [step_repeatedWith le] at stepped
      cases stepped
  | @between _ left _ _ _ left_eq =>
      cases left with
      | zero =>
          rw [step_betweenTurns_zero] at stepped
          cases stepped
      | succ left =>
          rw [step_betweenTurns_of_left left_eq] at stepped
          cases stepped
  | @inside _ left _ _ _ inner amid =>
      rcases value_eq : inner.value? with _ | value
      · rw [step_inTurn value_eq] at stepped
        rcases Stepped.suspended_of_map stepped with ⟨rest, inner_stepped, rfl⟩
        exact ⟨left, inner, rest, amid, inner_stepped, rfl⟩
      · obtain rfl := Future.eq_ready_of_value? value_eq
        rw [step_inTurn_ready] at stepped
        rcases Call.map_eq_ok_iff.mp stepped with ⟨item, _, stepped_eq⟩
        cases stepped_eq
  | finished => cases stepped

theorem Amid.resumed {wake : Wake} {rest : Future σ V ρ}
    (amid : Amid body accept count turns left breaks before inner between)
    (stepped : inner.step between = some (.ok (.suspended wake rest), after)) (resumed : σ) :
    Amid body accept count turns left (breaks ++ [(after, resumed)]) before rest resumed := by
  rcases amid with ⟨completed, left_eq, ran⟩
  rw [List.append_assoc]
  exact .ran completed left_eq (ran.resumed stepped resumed)

theorem exists_repeating (le : count ≤ mostItems)
    (spans : Future.Spans breaks (.ofGraph (body.repeatedWith accept collect count)) before last
      after) :
    ∃ turns, Repeating body accept collect count turns breaks before last after := by
  generalize first_eq : Future.ofGraph (body.repeatedWith accept collect count) = first at spans
  induction spans with
  | start future world =>
      cases first_eq
      exact ⟨[], .start world⟩
  | went _ unfinished stepped ih =>
      rcases ih first_eq with ⟨turns, repeating⟩
      exact repeating.went le unfinished stepped
  | resumed _ stepped resumed ih =>
      rcases ih first_eq with ⟨turns, repeating⟩
      rcases repeating.suspended le stepped with ⟨left, inner, rest, amid, inner_stepped, rfl⟩
      exact ⟨turns, .inside (amid.resumed inner_stepped resumed)⟩

theorem spans_inTurn {first : Future σ V ρ} (ran : Future.Spans breaks first before inner after) :
    Future.Spans breaks (inTurn body accept collect count left items first) before
      (inTurn body accept collect count left items inner) after := by
  induction ran with
  | start => exact .start _ _
  | went _ unfinished stepped ih =>
      refine ih.went rfl ?_
      rw [step_inTurn unfinished]
      exact Call.map_of_ok _ stepped
  | resumed _ stepped resumed ih =>
      have unfinished := Future.value?_of_suspended stepped
      have inside := Call.map_of_ok
        (Stepped.map (inTurn body accept collect count left items)) stepped
      rw [← step_inTurn unfinished] at inside
      exact ih.resumed inside resumed

theorem spans_of_turn {first : Future σ V ρ} {more : List (σ × σ)}
    (spans : Future.Spans breaks first before
      (betweenTurns body accept collect count (left + 1) (turns.map Turn.item).reverse) between)
    (left_eq : turns.length + (left + 1) = count)
    (ran : Future.Spans more (.ofGraph body) (Host.emit (.repetition turns.length count) between)
      inner after) :
    Future.Spans (breaks ++ more) first before
      (inTurn body accept collect count left (turns.map Turn.item).reverse inner) after := by
  exact (spans.went rfl (step_betweenTurns_of_left left_eq _)).trans (spans_inTurn ran)

theorem InTurn.spans (le : count ≤ mostItems) (collect : List α → V)
    (completed : InTurn body accept count turns before after)
    (left_eq : turns.length + left = count) :
    Future.Spans (turns.flatMap Turn.breaks)
      (.ofGraph (body.repeatedWith accept collect count)) before
      (betweenTurns body accept collect count left (turns.map Turn.item).reverse) after := by
  induction completed generalizing left with
  | start world =>
      obtain rfl : left = count := by simpa using left_eq
      have begins := congrFun (step_repeatedWith le body accept collect) world
      exact .went (.start _ _) rfl begins
  | @turn turns more _ _ _ _ _ item _ ran accepted ih =>
      have left_eq : turns.length + (left + 1) = count := by
        rw [List.length_append, List.length_singleton] at left_eq
        omega
      have inside := spans_of_turn (ih left_eq) left_eq (Future.pollsTo_ready_iff.mp ran)
      have stepped := Call.map_of_ok (fun item => Stepped.went
        (betweenTurns body accept collect count left (item :: (turns.map Turn.item).reverse)))
          accepted
      rw [← step_inTurn_ready] at stepped
      simpa using inside.went rfl stepped

theorem Amid.spans (le : count ≤ mostItems) (collect : List α → V)
    (amid : Amid body accept count turns left breaks before inner after) :
    Future.Spans breaks (.ofGraph (body.repeatedWith accept collect count)) before
      (inTurn body accept collect count left (turns.map Turn.item).reverse inner) after := by
  rcases amid with ⟨completed, left_eq, ran⟩
  exact spans_of_turn (completed.spans le collect left_eq) left_eq ran

theorem Repeating.spans (le : count ≤ mostItems)
    (repeating : Repeating body accept collect count turns breaks before last after) :
    Future.Spans breaks (.ofGraph (body.repeatedWith accept collect count)) before last after := by
  cases repeating with
  | start => exact .start _ _
  | between completed left_eq => exact completed.spans le collect left_eq
  | inside amid => exact amid.spans le collect
  | finished completed length_eq =>
      have left_eq : turns.length + 0 = count := length_eq
      refine (completed.spans le collect left_eq).went rfl ?_
      rw [step_betweenTurns_zero, List.reverse_reverse]

/-- The steps of a repetition are runs of its body one after the other. -/
theorem spans_repeated_iff (le : count ≤ mostItems) :
    Future.Spans breaks (.ofGraph (body.repeatedWith accept collect count)) before last after ↔
      ∃ turns, Repeating body accept collect count turns breaks before last after := by
  constructor
  · intro spans
    exact exists_repeating le spans
  · rintro ⟨turns, repeating⟩
    exact repeating.spans le

end AsyncGraph

end Deferral

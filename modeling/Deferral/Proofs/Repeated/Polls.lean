import Deferral.Proofs.Repeated.InTurn

/-!
# Polls of a repetition

What a poll of a repetition comes to is known from polls of its body's runs. Either the last run is
over and the items of all of them are collected, or there is a run that is pending, panics or does
not return, and then every run before it is over and none after it has begun.
-/

namespace Deferral.AsyncGraph

variable {σ V ρ α : Type} [Host σ V] [Equations ρ σ (Future σ V ρ) V]

/-- After runs that are over, the poll after all these breaks is one of the next run. -/
def TurnPollsTo (body : AsyncGraph σ V ρ) (accept : V → Call σ α) (count : Nat)
    (turns : List (Turn σ α)) (breaks : List (σ × σ)) (before : σ)
    (answer : Option (Except Panic (Poll V (Future σ V ρ)) × σ)) : Prop :=
  ∃ more between, breaks = turns.flatMap Turn.breaks ++ more ∧
    InTurn body accept count turns before between ∧ turns.length < count ∧
    (Future.ofGraph body).PollsTo more (Host.emit (.repetition turns.length count) between) answer

/-- What a poll of a repetition comes to. -/
inductive RepeatedPoll (body : AsyncGraph σ V ρ) (accept : V → Call σ α) (collect : List α → V)
    (count : Nat) : List (σ × σ) → σ → Option (Except Panic (Poll V (Future σ V ρ)) × σ) → Prop
  | ready {turns : List (Turn σ α)} {before after : σ}
      (completed : InTurn body accept count turns before after)
      (length_eq : turns.length = count) :
      RepeatedPoll body accept collect count (turns.flatMap Turn.breaks) before
        (some (.ok (.ready (collect (turns.map Turn.item))),
          Host.emit (.asyncFinished 0) after))
  | pending {turns : List (Turn σ α)} {breaks : List (σ × σ)} {wake : Wake} {rest : Future σ V ρ}
      {before after : σ}
      (polls : TurnPollsTo body accept count turns breaks before
        (some (.ok (.pending wake rest), after))) :
      RepeatedPoll body accept collect count breaks before
        (some (.ok (.pending wake (inTurn body accept collect count (count - (turns.length + 1))
          (turns.map Turn.item).reverse rest)), after))
  | panics {turns : List (Turn σ α)} {breaks : List (σ × σ)} {reason : Panic} {before after : σ}
      (polls : TurnPollsTo body accept count turns breaks before (some (.error reason, after))) :
      RepeatedPoll body accept collect count breaks before (some (.error reason, after))
  | refused {turns : List (Turn σ α)} {breaks : List (σ × σ)} {value : V} {reason : Panic}
      {before here after : σ}
      (polls : TurnPollsTo body accept count turns breaks before
        (some (.ok (.ready value), here)))
      (refused : accept value here = some (.error reason, after)) :
      RepeatedPoll body accept collect count breaks before (some (.error reason, after))
  | hangs {turns : List (Turn σ α)} {breaks : List (σ × σ)} {before : σ}
      (polls : TurnPollsTo body accept count turns breaks before none) :
      RepeatedPoll body accept collect count breaks before none
  | held {turns : List (Turn σ α)} {breaks : List (σ × σ)} {value : V} {before here : σ}
      (polls : TurnPollsTo body accept count turns breaks before
        (some (.ok (.ready value), here)))
      (held : accept value here = none) :
      RepeatedPoll body accept collect count breaks before none

variable {body : AsyncGraph σ V ρ} {accept : V → Call σ α} {collect : List α → V}
  {count left : Nat} {turns : List (Turn σ α)} {items : List α} {breaks : List (σ × σ)}
  {inner : Future σ V ρ} {before between after : σ}
  {answer : Option (Except Panic (Poll V (Future σ V ρ)) × σ)}

/-- What a poll of a run of the body means for the repetition. -/
def afterTurnPoll (body : AsyncGraph σ V ρ) (accept : V → Call σ α) (collect : List α → V)
    (count left : Nat) (items : List α) :
    Poll V (Future σ V ρ) → Call σ (Poll V (Future σ V ρ))
  | .pending wake rest => return .pending wake (inTurn body accept collect count left items rest)
  | .ready value => do
    let item ← accept value
    (betweenTurns body accept collect count left (item :: items)).poll

theorem poll_inTurn :
    (inTurn body accept collect count left items inner).poll =
      inner.poll >>= afterTurnPoll body accept collect count left items := by
  rw [inTurn, Future.poll_eq_pollWith, Future.pollWith, Future.poll_eq_pollWith (.chain _ _)]
  simp only [Future.pollWith, bind_assoc]
  apply bind_congr
  intro polled
  cases polled with
  | pending wake rest => rfl
  | ready value =>
      simp only [afterTurnPoll, bind_assoc, pure_bind]
      apply bind_congr
      intro item
      rw [betweenTurns, Future.poll_eq_pollWith (.await _ _)]
      rfl

theorem turnPollsTo_iff :
    TurnPollsTo body accept count turns breaks before answer ↔
      ∃ inner here, Amid body accept count turns (count - (turns.length + 1)) breaks before inner
        here ∧ inner.poll here = answer := by
  constructor
  · rintro ⟨more, between, rfl, completed, lt, polls⟩
    rcases Future.pollsTo_iff.mp polls with ⟨inner, here, ran, polled⟩
    exact ⟨inner, here, .ran completed (by omega) ran, polled⟩
  · rintro ⟨inner, here, ⟨completed, left_eq, ran⟩, polled⟩
    exact ⟨_, _, rfl, completed, by omega, Future.pollsTo_iff.mpr ⟨inner, here, ran, polled⟩⟩

theorem Amid.turnPollsTo (amid : Amid body accept count turns left breaks before inner after) :
    TurnPollsTo body accept count turns breaks before (inner.poll after) := by
  rcases amid with ⟨completed, left_eq, ran⟩
  exact ⟨_, _, rfl, completed, by omega, Future.pollsTo_iff.mpr ⟨inner, after, ran, rfl⟩⟩

/-- What a poll of a run comes to, and what is made of that, is what the repetition comes to. -/
theorem TurnPollsTo.pollsTo (le : count ≤ mostItems)
    (polls : TurnPollsTo body accept count turns breaks before answer)
    {result : Option (Except Panic (Poll V (Future σ V ρ)) × σ)}
    (made : ∀ {poll : Call σ (Poll V (Future σ V ρ))} {here : σ}, poll here = answer →
      (poll >>= afterTurnPoll body accept collect count (count - (turns.length + 1))
        (turns.map Turn.item).reverse) here = result) :
    (Future.ofGraph (body.repeatedWith accept collect count)).PollsTo breaks before result := by
  rcases turnPollsTo_iff.mp polls with ⟨inner, here, amid, polled⟩
  apply Future.pollsTo_iff.mpr
  refine ⟨_, here, amid.spans le collect, ?_⟩
  rw [poll_inTurn]
  exact made polled

theorem RepeatedPoll.pollsTo (le : count ≤ mostItems)
    (poll : RepeatedPoll body accept collect count breaks before answer) :
    (Future.ofGraph (body.repeatedWith accept collect count)).PollsTo breaks before answer := by
  cases poll with
  | ready completed length_eq =>
      have finished : Repeating body accept collect count _ _ before _ _ :=
        .finished completed length_eq
      exact Future.pollsTo_ready_iff.mpr (finished.spans le)
  | pending polls =>
      apply polls.pollsTo le
      intro poll here polled
      exact Call.bind_of_ok polled
  | panics polls =>
      apply polls.pollsTo le
      intro poll here polled
      exact Call.bind_of_error polled
  | refused polls refused =>
      apply polls.pollsTo le
      intro poll here polled
      exact (Call.bind_of_ok polled).trans (Call.bind_of_error refused)
  | hangs polls =>
      apply polls.pollsTo le
      intro poll here polled
      exact Call.bind_of_none polled
  | held polls held =>
      apply polls.pollsTo le
      intro poll here polled
      exact (Call.bind_of_ok polled).trans (Call.bind_of_none held)

/-- The run that is under way ends the poll, or it is over and its value becomes an item. -/
theorem Amid.ends_poll_or_over (collect : List α → V)
    (amid : Amid body accept count turns left breaks before inner between) :
    (∃ answer, RepeatedPoll body accept collect count breaks before answer) ∨
      ∃ turn after, InTurn body accept count (turns ++ [turn]) before after ∧
        breaks = (turns ++ [turn]).flatMap Turn.breaks := by
  have polls := amid.turnPollsTo
  rcases polled : inner.poll between with _ | ⟨reason | value | ⟨wake, rest⟩, here⟩
  · rw [polled] at polls
    exact .inl ⟨_, .hangs polls⟩
  · rw [polled] at polls
    exact .inl ⟨_, .panics polls⟩
  · rw [polled] at polls
    rcases accepted : accept value here with _ | ⟨reason | item, after⟩
    · exact .inl ⟨_, .held polls accepted⟩
    · exact .inl ⟨_, .refused polls accepted⟩
    · rcases polls with ⟨more, start, rfl, completed, lt, polls⟩
      exact .inr ⟨⟨more, item⟩, after, .turn completed polls accepted, by simp⟩
  · rw [polled] at polls
    exact .inl ⟨_, .pending polls⟩

/-- A poll goes through the runs that are left until one of them ends it. -/
theorem exists_repeatedPoll_of_inTurn (collect : List α → V)
    (completed : InTurn body accept count turns before after)
    (left_eq : turns.length + left = count) :
    ∃ answer, RepeatedPoll body accept collect count (turns.flatMap Turn.breaks) before answer := by
  -- The induction is on the runs that are left, since a poll may go through any number of them.
  induction left generalizing turns after with
  | zero => exact ⟨_, .ready completed left_eq⟩
  | succ left ih =>
      rcases (Amid.start completed left_eq).ends_poll_or_over collect with
        answered | ⟨turn, resumed, further, breaks_eq⟩
      · exact answered
      · rw [breaks_eq]
        apply ih further
        rw [List.length_append, List.length_singleton]
        omega

theorem exists_repeatedPoll {last : Future σ V ρ}
    (repeating : Repeating body accept collect count turns breaks before last after) :
    ∃ answer, RepeatedPoll body accept collect count breaks before answer := by
  cases repeating with
  | start => exact exists_repeatedPoll_of_inTurn collect (.start _) (Nat.zero_add count)
  | between completed left_eq => exact exists_repeatedPoll_of_inTurn collect completed left_eq
  | inside amid =>
      rcases amid.ends_poll_or_over collect with
        answered | ⟨turn, resumed, completed, breaks_eq⟩
      · exact answered
      · rw [breaks_eq]
        rcases amid with ⟨_, left_eq, _⟩
        apply exists_repeatedPoll_of_inTurn collect completed
        rw [List.length_append, List.length_singleton, Nat.add_assoc, Nat.add_comm 1]
        exact left_eq
  | finished completed length_eq => exact ⟨_, .ready completed length_eq⟩

/-- A poll of a repetition comes to what the runs of its body come to, one after the other. -/
theorem repeated_pollsTo_iff (le : count ≤ mostItems) :
    (Future.ofGraph (body.repeatedWith accept collect count)).PollsTo breaks before answer ↔
      RepeatedPoll body accept collect count breaks before answer := by
  constructor
  · intro polls
    -- A poll has one answer only, so any answer that the runs account for is the one it has.
    have started := polls
    rcases started with ⟨future, between, resumes, _⟩
    rcases exists_repeating le resumes.spans with ⟨turns, repeating⟩
    rcases exists_repeatedPoll repeating with ⟨other, poll⟩
    rw [polls.unique (poll.pollsTo le)]
    exact poll
  · intro poll
    exact poll.pollsTo le

end Deferral.AsyncGraph

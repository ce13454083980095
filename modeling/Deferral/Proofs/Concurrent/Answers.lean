import Deferral.Proofs.Concurrent.Alone
import Deferral.Proofs.Future.Exhaust

/-!
# Answers that depend on nothing

A future that is blind to everything gives the same answers in whatever worlds it is polled. So all
that a schedule can do to it is to poll it so many times before it is given up: its answers are then
the first so many answers that it gives to somebody who polls it with nothing in between.
-/

namespace Deferral

variable {κ σ V ρ : Type}

/-- Nothing is asked of two worlds. -/
abbrev Anywhere : σ → σ → Prop := fun _ _ => True

/-- How often a future is polled before it is given up. -/
def pollsBefore [DecidableEq κ] (which : κ) : List (Turn κ σ) → Nat
  | [] => 0
  | .poll other :: turns =>
    if other = which then pollsBefore which turns + 1 else pollsBefore which turns
  | .drop other :: turns => if other = which then 0 else pollsBefore which turns
  | .act _ :: turns => pollsBefore which turns

theorem pollsBefore_of_other [DecidableEq κ] {which : κ} {turn : Turn κ σ} {turns : List (Turn κ σ)}
    (other : turn.about? ≠ some which) :
    pollsBefore which (turn :: turns) = pollsBefore which turns := by
  cases turn with
  | poll polled | drop dropped => exact if_neg fun same => other (congrArg some same)
  | act step => rfl

theorem pollsBefore_append_of_other [DecidableEq κ] {which : κ} {turn : Turn κ σ}
    (other : turn.about? ≠ some which) (first rest : List (Turn κ σ)) :
    pollsBefore which (first ++ turn :: rest) = pollsBefore which (first ++ rest) := by
  induction first with
  | nil => exact pollsBefore_of_other other
  | cons before first ih =>
      cases before with
      | poll polled | drop dropped => simp only [List.cons_append, pollsBefore, ih]
      | act step => exact ih

variable [Host σ V] [Equations ρ σ (Future σ V ρ) V]

/-- The answers to so many polls with nothing in between, which are fewer when the future ends. -/
def Future.answers : Nat → Future σ V ρ → σ → Option (List (Answer V))
  | 0, _, _ => some []
  | polls + 1, future, world => (future.poll world).bind fun (ending, after) =>
    match left? ending with
    | none => some [.of ending]
    | some rest => (answers polls rest after).map (.of ending :: ·)

section Answers

variable {future future' rest : Future σ V ρ} {polls : Nat} {own between after : σ}
  {ending : Except Panic (Poll V (Future σ V ρ))}

theorem Future.answers_of_ended (polled : future.poll own = some (ending, after))
    (left_eq : left? ending = none) : future.answers (polls + 1) own = some [.of ending] := by
  simp only [answers, polled, Option.bind_some, left_eq]

theorem Future.answers_of_left (polled : future.poll own = some (ending, after))
    (left_eq : left? ending = some rest) :
    future.answers (polls + 1) own = (rest.answers polls after).map (.of ending :: ·) := by
  simp only [answers, polled, Option.bind_some, left_eq]

/-- A future that is pending so many times and then ends has just these answers to give. -/
theorem Future.Pends.answers_eq {waits : Nat} (pends : Pends waits future own rest between)
    (polled : rest.poll between = some (ending, after)) (left_eq : left? ending = none) :
    ∃ wakes : List Wake, wakes.length = waits ∧ ∀ polls,
      future.answers polls own =
        some ((wakes.map Answer.pending ++ [Answer.of ending]).take polls) := by
  induction pends with
  | start future world =>
      refine ⟨[], rfl, fun polls => ?_⟩
      cases polls with
      | zero => rfl
      | succ polls => simp [answers_of_ended polled left_eq]
  | @poll waits _ _ _ wake _ _ _ first _ ih =>
      rcases ih polled with ⟨wakes, rfl, answers_eq⟩
      refine ⟨wake :: wakes, rfl, fun polls => ?_⟩
      cases polls with
      | zero => rfl
      | succ polls =>
          rw [answers_of_left first rfl, answers_eq]
          rfl

end Answers

variable [DecidableEq κ] {held next last : Held κ σ V ρ} {world own ended : σ} {turn : Turn κ σ}
  {turns : List (Turn κ σ)} {moment : Moment κ σ V} {moments : List (Moment κ σ V)} {which : κ}
  {future future' : Future σ V ρ}

theorem Takes.of_gone (takes : Takes held world turn moment next) (gone : held which = none) :
    next which = none ∧ moment.polled? which = none := by
  cases takes with
  | gone held_eq => simp [Moment.polled?, gone]
  | @polls polled _ _ _ held_eq _ =>
      have ne : polled ≠ which := by
        rintro rfl
        simp [gone] at held_eq
      simp [Moment.polled?, ne, ne.symm, gone]
  | @drops dropped =>
      by_cases same : which = dropped
      · simp [Moment.polled?, same]
      · simp [Moment.polled?, same, gone]
  | acts step => exact ⟨gone, rfl⟩

/-- A future that has ended or was given up shows nothing any more. -/
theorem Plays.pollsOf_of_gone (plays : Plays turns held world moments last ended)
    (gone : held which = none) : pollsOf which moments = [] := by
  induction plays with
  | done => rfl
  | turn takes _ ih =>
      rcases takes.of_gone gone with ⟨next_gone, polled_eq⟩
      rw [pollsOf_cons, polled_eq, ih next_gone]
      rfl

/-- Among others a future that is blind to everything gives the answers that it gives alone. -/
theorem Plays.answers_eq (plays : Plays turns held world moments last ended)
    (held_eq : held which = some future) (follows : FuturesFollow Anywhere future future')
    (own : σ) :
    future'.answers (pollsBefore which turns) own =
      some ((pollsOf which moments).map Polled.answer) := by
  induction plays generalizing future future' own with
  | done => rfl
  | @turn turn turns _ _ _ _ _ _ _ takes rest ih =>
      rw [pollsOf_cons, List.map_append]
      by_cases about : turn.about? = some which
      · cases takes with
        | gone gone_eq =>
            cases about
            simp [gone_eq] at held_eq
        | @polls polled former ending after former_eq answered =>
            obtain rfl : polled = which := Option.some.inj about
            obtain rfl : former = future := Option.some.inj (former_eq.symm.trans held_eq)
            rcases FuturesFollow.kept.polled follows trivial answered with
              ⟨ending', after', answered', _, answer_eq, rests⟩
            simp only [pollsBefore, if_true, Moment.polled?, Option.map_some, Option.toList_some,
              List.map_cons, List.map_nil, List.singleton_append, answer_eq]
            generalize left_eq : Future.left? ending = left? at rests
            generalize left_eq' : Future.left? ending' = left?' at rests
            cases rests with
            | none =>
                rw [Future.answers_of_ended answered' left_eq']
                rw [rest.pollsOf_of_gone (by rw [Function.update_self, left_eq])]
                rfl
            | some follows =>
                rw [Future.answers_of_left answered' left_eq']
                rw [ih (by rw [Function.update_self, left_eq]) follows after']
                rfl
        | drops dropped =>
            obtain rfl : dropped = which := Option.some.inj about
            rw [rest.pollsOf_of_gone (Function.update_self ..)]
            simp [pollsBefore, Moment.polled?, Future.answers]
        | acts step => cases about
      · rcases takes.of_other about fun after _ => after with ⟨next_eq, polled_eq, _⟩
        rw [pollsBefore_of_other about, polled_eq]
        exact ih (next_eq.trans held_eq) follows own

/-- So many polls of a future return, because those of one that it follows do. -/
def Future.Returns (polls : Nat) (future : Future σ V ρ) : Prop :=
  ∃ future' own, FuturesFollow Anywhere future' future ∧ future'.answers polls own ≠ none

theorem Future.Returns.poll {polls : Nat} (returns : future.Returns (polls + 1)) (world : σ) :
    ∃ ending after, future.poll world = some (ending, after) ∧
      ∀ rest, left? ending = some rest → rest.Returns polls := by
  rcases returns with ⟨former, own, follows, answered⟩
  rcases polled : former.poll own with _ | ⟨ending, after⟩
  · simp [answers, polled] at answered
  · rcases FuturesFollow.kept.polled follows trivial polled with
      ⟨ending', after', polled', _, _, rests⟩
    refine ⟨ending', after', polled', fun rest left_eq' => ?_⟩
    rw [left_eq'] at rests
    generalize left_eq : left? ending = left? at rests
    cases rests with
    | some follows =>
        rw [answers_of_left polled left_eq, ne_eq, Option.map_eq_none_iff] at answered
        exact ⟨_, after, follows, answered⟩

/-- The next turn is taken, and what is left returns for the turns that follow. -/
theorem exists_takes (turn : Turn κ σ) (held : Held κ σ V ρ) (world : σ)
    (returns : ∀ which future, held which = some future →
      future.Returns (pollsBefore which (turn :: turns))) :
    ∃ moment next, Takes held world turn moment next ∧
      ∀ which future, next which = some future → future.Returns (pollsBefore which turns) := by
  -- Futures that the turn is not about stay as they are.
  have others {which : κ} {future : Future σ V ρ} (other : turn.about? ≠ some which)
      (held_eq : held which = some future) : future.Returns (pollsBefore which turns) := by
    rw [← pollsBefore_of_other other]
    exact returns which future held_eq
  cases turn with
  | poll polled =>
      rcases held_eq : held polled with _ | future
      · refine ⟨_, _, .gone held_eq, fun which future next_eq => others ?_ next_eq⟩
        intro about
        cases about
        simp [held_eq] at next_eq
      · have polled_returns := returns polled future held_eq
        rw [pollsBefore, if_pos rfl] at polled_returns
        rcases polled_returns.poll world with ⟨ending, after, answered, rests⟩
        refine ⟨_, _, .polls held_eq answered, fun which future next_eq => ?_⟩
        by_cases same : which = polled
        · subst same
          rw [Function.update_self] at next_eq
          exact rests future next_eq
        · rw [Function.update_of_ne same] at next_eq
          exact others (fun about => same (Option.some.inj about).symm) next_eq
  | drop dropped =>
      refine ⟨_, _, .drops dropped, fun which future next_eq => ?_⟩
      by_cases same : which = dropped
      · subst same
        simp at next_eq
      · rw [Function.update_of_ne same] at next_eq
        exact others (fun about => same (Option.some.inj about).symm) next_eq
  | act step => exact ⟨_, _, .acts step, fun which future => others nofun⟩

/-- A schedule is played to its end when the futures that it polls return. -/
theorem exists_plays (turns : List (Turn κ σ)) (held : Held κ σ V ρ) (world : σ)
    (returns : ∀ which future, held which = some future →
      future.Returns (pollsBefore which turns)) :
    ∃ moments last ended, Plays turns held world moments last ended := by
  induction turns generalizing held world with
  | nil => exact ⟨[], held, world, .done _ _⟩
  | cons turn turns ih =>
      rcases exists_takes turn held world returns with ⟨moment, next, takes, still⟩
      rcases ih next moment.after still with ⟨moments, last, ended, plays⟩
      exact ⟨_, last, ended, .turn takes plays⟩

end Deferral

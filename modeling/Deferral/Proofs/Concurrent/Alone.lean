import Deferral.Proofs.Concurrent.Blind
import Deferral.Proofs.Concurrent.Schedule

/-!
# A run among others and a run alone

What one future shows among others it shows alone as well, if the world changes in between as the
others changed it. Its own polls and the turn in which it is given up stay where they are, and every
other turn becomes a change of the world to what that turn left.

A future that cannot tell worlds apart that are the same in some sense may be left with a world that
is only the same in that sense.
-/

namespace Deferral

variable {κ σ V ρ : Type} [DecidableEq κ]

/-- The same turn for someone who holds one future only. What another turn changes is changed here,
given the world that it left. -/
def Moment.alone (change : σ → σ → σ) (which : κ) (moment : Moment κ σ V) : Turn Unit σ :=
  match moment.turn with
  | .poll other => if other = which then .poll () else .act (change moment.after)
  | .drop other => if other = which then .drop () else .act (change moment.after)
  | .act _ => .act (change moment.after)

/-- Two polls with the same answer in worlds that are the same. -/
structure SamePoll (same : σ → σ → Prop) (first second : Polled σ V) : Prop where
  before : same first.before second.before
  answer_eq : first.answer = second.answer
  after : same first.after second.after

theorem SamePoll.eq {first second : Polled σ V} (polls : SamePoll Eq first second) :
    first = second := by
  rcases first with ⟨before, answer, after⟩
  rcases polls with ⟨rfl, rfl, rfl⟩
  rfl

variable [Host σ V] [Equations ρ σ (Future σ V ρ) V]
variable {held next last : Held κ σ V ρ} {solo : Held Unit σ V ρ} {world own ended : σ}
  {turn : Turn κ σ} {turns : List (Turn κ σ)} {moment : Moment κ σ V}
  {moments : List (Moment κ σ V)} {same : σ → σ → Prop}
  {related : Future σ V ρ → Future σ V ρ → Prop}

/-- Two polls of related futures show the same and leave related futures. -/
theorem KeptByPolls.polled (kept : KeptByPolls same related) {future future' : Future σ V ρ}
    (futures : related future future') (worlds : same world own)
    {ending : Except Panic (Poll V (Future σ V ρ))} {after : σ}
    (polled : future.poll world = some (ending, after)) :
    ∃ ending' after', future'.poll own = some (ending', after') ∧ same after after' ∧
      Answer.of ending = Answer.of ending' ∧
      Option.Rel related (Future.left? ending) (Future.left? ending') := by
  have found := kept futures worlds _ polled
  generalize polled' : future'.poll own = answer' at found
  cases found with
  | panicked last => exact ⟨_, _, rfl, last, rfl, .none⟩
  | returned last polls =>
      cases polls with
      | ready value => exact ⟨_, _, rfl, last, rfl, .none⟩
      | pending rests => exact ⟨_, _, rfl, last, rfl, .some rests⟩

/-- A turn that is not about a future leaves it as it is. -/
theorem Takes.of_other {which : κ} (takes : Takes held world turn moment next)
    (other : turn.about? ≠ some which) (change : σ → σ → σ) :
    next which = held which ∧ moment.polled? which = none ∧
      moment.alone change which = .act (change moment.after) := by
  cases takes with
  | @gone polled held_eq | @polls polled _ _ _ held_eq _ =>
      have ne : polled ≠ which := fun same => other (congrArg some same)
      simp [Moment.polled?, Moment.alone, ne, ne.symm]
  | drops dropped =>
      have ne : dropped ≠ which := fun same => other (congrArg some same)
      simp [Moment.polled?, Moment.alone, ne, ne.symm]
  | acts step => exact ⟨rfl, rfl, rfl⟩

theorem Takes.alone (kept : KeptByPolls same related) {change : σ → σ → σ}
    (changed : ∀ after own, same after (change after own)) (which : κ)
    (takes : Takes held world turn moment next)
    (futures : Option.Rel related (held which) (solo ())) (worlds : same world own) :
    ∃ soloMoment soloNext, Takes solo own (moment.alone change which) soloMoment soloNext ∧
      Option.Rel related (next which) (soloNext ()) ∧
      same moment.after soloMoment.after ∧
      Option.Rel (SamePoll same) (moment.polled? which) (soloMoment.polled? ()) := by
  by_cases about : turn.about? = some which
  · cases takes with
    | @gone polled held_eq =>
        obtain rfl : polled = which := Option.some.inj about
        have rests := futures
        rw [held_eq] at futures
        generalize solo_eq : solo () = future?' at futures
        cases futures with
        | none =>
            simp only [Moment.alone, Moment.polled?, if_true]
            exact ⟨_, _, .gone solo_eq, rests, worlds, .none⟩
    | @polls polled future ending after held_eq answered =>
        obtain rfl : polled = which := Option.some.inj about
        rw [held_eq] at futures
        generalize solo_eq : solo () = future?' at futures
        cases futures with
        | some rel =>
            rcases kept.polled rel worlds answered with
              ⟨ending', after', answered', last, answer_eq, rests⟩
            simp only [Moment.alone, Moment.polled?, if_true]
            refine ⟨_, _, .polls solo_eq answered', ?_, last, ?_⟩
            · simpa using rests
            · exact .some ⟨worlds, answer_eq, last⟩
    | drops dropped =>
        obtain rfl : dropped = which := Option.some.inj about
        simp only [Moment.alone, Moment.polled?, if_true]
        refine ⟨_, _, .drops (), ?_, worlds, .none⟩
        simp
    | acts step => cases about
  · rcases takes.of_other about change with ⟨next_eq, polled_eq, alone_eq⟩
    rw [next_eq, polled_eq, alone_eq]
    exact ⟨_, _, .acts _, futures, changed _ _, .none⟩

/-- Among others a future shows what it shows alone. -/
theorem Plays.alone (kept : KeptByPolls same related) {change : σ → σ → σ}
    (changed : ∀ after own, same after (change after own)) (which : κ)
    (plays : Plays turns held world moments last ended)
    (futures : Option.Rel related (held which) (solo ())) (worlds : same world own) :
    ∃ soloMoments soloLast soloEnded,
      Plays (moments.map (Moment.alone change which)) solo own soloMoments soloLast soloEnded ∧
      Option.Rel related (last which) (soloLast ()) ∧ same ended soloEnded ∧
      List.Forall₂ (SamePoll same) (pollsOf which moments) (pollsOf () soloMoments) := by
  induction plays generalizing solo own with
  | done held world => exact ⟨[], solo, own, .done _ _, futures, worlds, .nil⟩
  | turn takes _ ih =>
      rcases takes.alone kept changed which futures worlds with
        ⟨soloMoment, soloNext, soloTakes, rests, after, polls⟩
      rcases ih rests after with ⟨soloMoments, soloLast, soloEnded, plays, lasts, ends, more⟩
      refine ⟨_, soloLast, soloEnded, .turn soloTakes plays, lasts, ends, ?_⟩
      rw [pollsOf_cons, pollsOf_cons]
      generalize Moment.polled? which _ = polled? at polls
      generalize soloMoment.polled? () = soloPolled? at polls
      cases polls with
      | none => exact more
      | some poll => exact .cons poll more

end Deferral

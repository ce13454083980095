import Deferral.Proofs.Concurrent.Answers

/-!
# Runs that do not disturb each other

The runs of any family of graphs share nothing but the world, whatever these graphs have in common.
Under every schedule each of them shows what it shows alone, in a world that is changed in between
as the others changed it. To give one of them up is the same as never to take another turn with it.
-/

namespace Deferral

variable {κ σ V ρ : Type} [DecidableEq κ] [Host σ V] [Equations ρ σ (Future σ V ρ) V]
variable {held held' next : Held κ σ V ρ} {world : σ} {turn : Turn κ σ} {turns : List (Turn κ σ)}
  {moment : Moment κ σ V} {which dropped : κ}

theorem play_cons_of_takes (takes : Takes held world turn moment next) :
    play (turn :: turns) held world =
      (play turns next moment.after).map fun (moments, rest) => (moment :: moments, rest) := by
  rw [play, takes_iff.mpr takes]
  rfl

/-- What is seen of one future: its polls, what is left of it, and the world in the end. -/
def seenOf (which : κ) :
    List (Moment κ σ V) × Held κ σ V ρ × σ → List (Polled σ V) × Option (Future σ V ρ) × σ
  | (moments, held, world) => (pollsOf which moments, held which, world)

theorem map_seenOf_play_cons (takes : Takes held world turn moment next) :
    (play (turn :: turns) held world).map (seenOf which) =
      ((play turns next moment.after).map (seenOf which)).map
        (Prod.map ((moment.polled? which).toList ++ ·) id) := by
  rw [play_cons_of_takes takes, Option.map_map, Option.map_map]
  refine congrArg (Option.map · _) ?_
  funext ⟨moments, rest⟩
  simp only [Function.comp_apply, seenOf, pollsOf_cons]
  rfl

theorem map_seenOf_play_append {first : List (Turn κ σ)} {moments : List (Moment κ σ V)}
    {between : σ} (played : play first held world = some (moments, next, between)) :
    (play (first ++ turns) held world).map (seenOf which) =
      ((play turns next between).map (seenOf which)).map
        (Prod.map (pollsOf which moments ++ ·) id) := by
  rw [play_append, played, Option.bind_some, Option.map_map, Option.map_map]
  refine congrArg (Option.map · _) ?_
  funext ⟨more, rest⟩
  simp only [Function.comp_apply, seenOf, pollsOf_append]
  rfl

/-- What is held of one future does not matter to a turn that is not about it. -/
theorem take_agrees (other : turn.about? ≠ some dropped) (world : σ)
    (agree : ∀ other, other ≠ dropped → held other = held' other) :
    (turn.take held world = none ∧ turn.take held' world = none) ∨
      ∃ moment next next', Takes held world turn moment next ∧ Takes held' world turn moment next' ∧
        ∀ other, other ≠ dropped → next other = next' other := by
  have updated (changed : κ) (future? : Option (Future σ V ρ)) : ∀ other, other ≠ dropped →
      Function.update held changed future? other = Function.update held' changed future? other := by
    intro other ne
    simp only [Function.update_apply, agree other ne]
  cases turn with
  | poll polled =>
      have same : held polled = held' polled := agree polled fun eq => other (congrArg some eq)
      rcases held_eq : held' polled with _ | future
      · exact .inr ⟨_, _, _, .gone (same.trans held_eq), .gone held_eq, agree⟩
      · rcases answered : future.poll world with _ | ⟨ending, after⟩
        · simp [Turn.take, same, held_eq, answered]
        · have polls := Takes.polls (same.trans held_eq) answered
          exact .inr ⟨_, _, _, polls, .polls held_eq answered, updated _ _⟩
  | drop given => exact .inr ⟨_, _, _, .drops given, .drops given, updated _ _⟩
  | act step => exact .inr ⟨_, _, _, .acts step, .acts step, agree⟩

/-- A turn that is about a future that is gone changes nothing for the others. -/
theorem exists_takes_of_gone (about : turn.about? = some dropped) (gone : held dropped = none)
    (other : which ≠ dropped) (world : σ) :
    ∃ moment next, Takes held world turn moment next ∧ moment.after = world ∧
      moment.polled? which = none ∧ next dropped = none ∧
      ∀ other, other ≠ dropped → next other = held other := by
  cases turn with
  | poll polled =>
      obtain rfl : polled = dropped := Option.some.inj about
      refine ⟨_, held, .gone gone, rfl, ?_, gone, fun _ _ => rfl⟩
      simp [Moment.polled?]
  | drop given =>
      obtain rfl : given = dropped := Option.some.inj about
      refine ⟨_, _, .drops given, rfl, rfl, Function.update_self .., fun other ne => ?_⟩
      exact Function.update_of_ne ne ..
  | act step => cases about

/-- Once a future is gone, the turns that are about it make no difference to the others. -/
theorem play_of_gone (other : which ≠ dropped) (turns : List (Turn κ σ)) (world : σ)
    (gone : held dropped = none) (agree : ∀ other, other ≠ dropped → held other = held' other) :
    (play turns held world).map (seenOf which) =
      (play (turns.filter fun turn => turn.about? ≠ some dropped) held' world).map
        (seenOf which) := by
  induction turns generalizing held held' world with
  | nil => simp [play, seenOf, pollsOf, agree which other]
  | cons turn turns ih =>
      by_cases about : turn.about? = some dropped
      · rcases exists_takes_of_gone about gone other world with
          ⟨moment, next, takes, after_eq, polled_eq, next_gone, next_eq⟩
        rw [map_seenOf_play_cons takes, after_eq, polled_eq, List.filter_cons_of_neg (by simpa)]
        rw [← ih world next_gone fun other ne => (next_eq other ne).trans (agree other ne)]
        simp only [Option.toList_none, List.nil_append, Option.map_map]
        rfl
      · rw [List.filter_cons_of_pos (by simpa)]
        rcases take_agrees about world agree with
          ⟨none_eq, none_eq'⟩ | ⟨moment, next, next', takes, takes', next_agree⟩
        · simp [play, none_eq, none_eq']
        · rw [map_seenOf_play_cons takes, map_seenOf_play_cons takes']
          have next_gone := (takes.of_other about fun after _ => after).1.trans gone
          rw [ih moment.after next_gone next_agree]

/-- To give a future up is the same for the others as never to take another turn with it. -/
theorem play_of_drop (other : which ≠ dropped) (first rest : List (Turn κ σ))
    (held : Held κ σ V ρ) (world : σ) :
    (play (first ++ .drop dropped :: rest) held world).map (seenOf which) =
      (play (first ++ rest.filter fun turn => turn.about? ≠ some dropped) held world).map
        (seenOf which) := by
  rcases played : play first held world with _ | ⟨moments, later, between⟩
  · simp [play_append, played]
  · have gone : Function.update later dropped none dropped = none := Function.update_self ..
    have rests := play_of_gone other rest between gone fun _ ne => Function.update_of_ne ne ..
    rw [map_seenOf_play_append played, map_seenOf_play_append played,
      map_seenOf_play_cons (.drops dropped), rests]
    simp only [Moment.polled?, Option.toList_none, List.nil_append, Option.map_map]
    rfl

/-- A poll hangs among others when it hangs for the future as it is then. -/
theorem play_append_poll_eq_none_iff {moments : List (Moment κ σ V)} {last : Held κ σ V ρ}
    {ended : σ} (played : play turns held world = some (moments, last, ended)) (which : κ) :
    play (turns ++ [.poll which]) held world = none ↔
      ∃ future, last which = some future ∧ future.poll ended = none := by
  rw [play_append, played]
  rcases held_eq : last which with _ | future
  · simp [play, Turn.take, held_eq]
  · rcases polled : future.poll ended with _ | ⟨ending, after⟩
    · simp [play, Turn.take, held_eq, polled]
    · simp [play, Turn.take, held_eq, polled]

section Begun

variable {graphs : κ → AsyncGraph σ V ρ} {moments : List (Moment κ σ V)} {last : Held κ σ V ρ}
  {ended : σ} (played : play turns (begun graphs) world = some (moments, last, ended)) (which : κ)

include played

/-- Alone a run is left as it is left among others. -/
theorem play_alone :
    ∃ solo, play (moments.map (Moment.alone (fun after _ => after) which))
        (begun fun _ : Unit => graphs which) world = some (solo, fun _ => last which, ended) ∧
      pollsOf () solo = pollsOf which moments := by
  have begins : Option.Rel Eq (begun graphs which) (begun (fun _ : Unit => graphs which) ()) :=
    .some rfl
  rcases (plays_iff.mp played).alone keptByPolls_eq (fun _ _ => rfl) which begins rfl with
    ⟨solo, soloLast, soloEnded, plays, last_eq, rfl, polls⟩
  have last_eq : soloLast = fun _ => last which := by
    funext _
    generalize soloLast () = future? at last_eq
    generalize last which = future?' at last_eq
    cases last_eq with
    | none => rfl
    | some same => rw [same]
  subst last_eq
  have polls_eq := polls.imp fun _ _ poll => poll.eq
  rw [List.forall₂_eq_eq_eq] at polls_eq
  exact ⟨solo, plays_iff.mpr plays, polls_eq.symm⟩

theorem play_alone_of_blind {same : σ → σ → Prop} (emits : KeptByEvents same)
    (blind : (graphs which).Blind same) {change : σ → σ → σ}
    (changed : ∀ after own, same after (change after own)) {own : σ} (worlds : same world own) :
    ∃ solo soloLast soloEnded,
      play (moments.map (Moment.alone change which)) (begun fun _ : Unit => graphs which) own =
        some (solo, soloLast, soloEnded) ∧
      List.Forall₂ (SamePoll same) (pollsOf which moments) (pollsOf () solo) := by
  have begins : Option.Rel (FuturesFollow same) (begun graphs which)
      (begun (fun _ : Unit => graphs which) ()) := .some (blind.runs emits)
  rcases (plays_iff.mp played).alone FuturesFollow.kept changed which begins worlds with
    ⟨solo, soloLast, soloEnded, plays, _, _, polls⟩
  exact ⟨solo, soloLast, soloEnded, plays_iff.mpr plays, polls⟩

theorem answers_of_blind (blind : (graphs which).Blind Anywhere) (own : σ) :
    (Future.ofGraph (graphs which)).answers (pollsBefore which turns) own =
      some ((pollsOf which moments).map Polled.answer) :=
  (plays_iff.mp played).answers_eq rfl (blind.runs fun _ _ _ _ => trivial) own

end Begun

/-- Events are heard in both of two sessions that differ in their places at most. -/
theorem keptByEvents_same {ω V : Type} :
    KeptByEvents (Session.Same : Session ω V → Session ω V → Prop) :=
  fun event _ _ same => same.emit event

/-- A run sees nothing of what others leave in places of theirs, if its functions do not look at
places: alone, with places of its own, it shows the same. -/
theorem play_alone_in_own_places {ω V ρ : Type}
    [Equations ρ (Session ω V) (Future (Session ω V) V ρ) V]
    {graphs : κ → AsyncGraph (Session ω V) V ρ} {turns : List (Turn κ (Session ω V))}
    {world ended : Session ω V} {moments : List (Moment κ (Session ω V) V)}
    {last : Held κ (Session ω V) V ρ}
    (played : play turns (begun graphs) world = some (moments, last, ended)) (which : κ)
    (blind : (graphs which).Blind Session.Same) :
    ∃ solo soloLast soloEnded,
      play (moments.map (Moment.alone (fun after own => { after with places := own.places }) which))
        (begun fun _ : Unit => graphs which) world = some (solo, soloLast, soloEnded) ∧
      List.Forall₂ (SamePoll Session.Same) (pollsOf which moments) (pollsOf () solo) := by
  apply play_alone_of_blind played which keptByEvents_same blind
  · exact fun _ _ => ⟨rfl, rfl, rfl, rfl⟩
  · exact ⟨rfl, rfl, rfl, rfl⟩

/-- The runs of a family of graphs do not disturb each other. Each of them shows poll by poll what
it shows alone when the world is changed in between as the others changed it, and hangs only where
it hangs alone; worlds that it cannot tell apart may stand in for each other. To give one up is the
same for the others as never to take another turn with it. A run that is blind to everything gives
the answers it has alone, in the same polls, under every schedule and whoever else is given up, and
schedules of such runs are played to their end. -/
theorem runs_undisturbed (graphs : κ → AsyncGraph σ V ρ) :
    (∀ turns world moments last ended,
      play turns (begun graphs) world = some (moments, last, ended) → ∀ which,
        let alone := moments.map (Moment.alone (fun after _ => after) which)
        let run := begun fun _ : Unit => graphs which
        (∃ solo, play alone run world = some (solo, fun _ => last which, ended) ∧
          pollsOf () solo = pollsOf which moments) ∧
        (play (turns ++ [.poll which]) (begun graphs) world = none ↔
          play (alone ++ [.poll ()]) run world = none)) ∧
    (∀ same, KeptByEvents same → ∀ which, (graphs which).Blind same →
      ∀ change : σ → σ → σ, (∀ after own, same after (change after own)) →
        ∀ turns world moments last ended,
          play turns (begun graphs) world = some (moments, last, ended) →
          ∀ own, same world own → ∃ solo soloLast soloEnded,
            play (moments.map (Moment.alone change which))
              (begun fun _ : Unit => graphs which) own =
              some (solo, soloLast, soloEnded) ∧
            List.Forall₂ (SamePoll same) (pollsOf which moments) (pollsOf () solo)) ∧
    (∀ which dropped, which ≠ dropped → ∀ first rest world,
      (play (first ++ .drop dropped :: rest) (begun graphs) world).map (seenOf which) =
        (play (first ++ rest.filter fun turn => turn.about? ≠ some dropped)
          (begun graphs) world).map
          (seenOf which)) ∧
    (∀ which, (graphs which).Blind Anywhere →
      ∀ turns world moments last ended,
        play turns (begun graphs) world = some (moments, last, ended) →
        (∀ own, (Future.ofGraph (graphs which)).answers (pollsBefore which turns) own =
          some ((pollsOf which moments).map Polled.answer)) ∧
        ∀ own waits rest between ending after,
          (Future.ofGraph (graphs which)).Pends waits own rest between →
          rest.poll between = some (ending, after) → Future.left? ending = none →
          ∃ wakes : List Wake, wakes.length = waits ∧
            (pollsOf which moments).map Polled.answer =
              (wakes.map Answer.pending ++ [Answer.of ending]).take (pollsBefore which turns)) ∧
    (∀ which dropped, which ≠ dropped → (graphs which).Blind Anywhere →
      ∀ first rest world moments last ended moments' last' ended',
        play (first ++ .drop dropped :: rest) (begun graphs) world = some (moments, last, ended) →
        play (first ++ rest) (begun graphs) world = some (moments', last', ended') →
        (pollsOf which moments).map Polled.answer = (pollsOf which moments').map Polled.answer) ∧
    ∀ turns world, (∀ which, (graphs which).Blind Anywhere ∧
        ∃ own, (Future.ofGraph (graphs which)).answers (pollsBefore which turns) own ≠ none) →
      play turns (begun graphs) world ≠ none := by
  refine ⟨?_, ?_, ?_, ?_, ?_, ?_⟩
  · intro turns world moments last ended played which alone run
    rcases play_alone played which with ⟨solo, solo_played, polls_eq⟩
    refine ⟨⟨solo, solo_played, polls_eq⟩, ?_⟩
    rw [play_append_poll_eq_none_iff played, play_append_poll_eq_none_iff solo_played]
  · intro same emits which blind change changed turns world moments last ended played own worlds
    exact play_alone_of_blind played which emits blind changed worlds
  · intro which dropped other first rest world
    exact play_of_drop other first rest (begun graphs) world
  · intro which blind turns world moments last ended played
    have answers_eq := answers_of_blind played which blind
    refine ⟨answers_eq, fun own waits rest between ending after pends polled left_eq => ?_⟩
    rcases pends.answers_eq polled left_eq with ⟨wakes, length_eq, solo_eq⟩
    have same := (answers_eq own).symm.trans (solo_eq _)
    exact ⟨wakes, length_eq, Option.some.inj same⟩
  · intro which dropped other blind first rest world moments last ended moments' last' ended' played
      played'
    have answers_eq := answers_of_blind played which blind world
    have answers_eq' := answers_of_blind played' which blind world
    have turn_other : (Turn.drop dropped : Turn κ σ).about? ≠ some which :=
      fun about => other (Option.some.inj about).symm
    rw [pollsBefore_append_of_other turn_other, answers_eq'] at answers_eq
    exact (Option.some.inj answers_eq).symm
  · intro turns world returns hangs
    have begins : ∀ which future, begun graphs which = some future →
        future.Returns (pollsBefore which turns) := by
      rintro which future begun_eq
      obtain rfl := Option.some.inj begun_eq
      rcases returns which with ⟨blind, own, answered⟩
      exact ⟨_, own, blind.runs fun _ _ _ _ => trivial, answered⟩
    rcases exists_plays turns (begun graphs) world begins with ⟨moments, last, ended, plays⟩
    rw [plays_iff.mpr plays] at hangs
    cases hangs

section Sample

/-- Counts its visits in the world, and yields what does not depend on the count. -/
def sampleCounting : Call (Session Nat Nat) (Future (Session Nat Nat) Nat Empty) := do
  Session.withUser fun visits => ((), visits + 1)
  return .ready 6

/-- Suspends once, counts the visit, and adds one to the value. -/
def sampleShared : AsyncGraph (Session Nat Nat) Nat Empty :=
  Graph.map (AsyncGraph.fromAsync (pure (.pause 1 (.after sampleCounting)))) fun value =>
    return value + 1

/-- The run of the sample after its first poll. -/
def sampleSuspended : Future (Session Nat Nat) Nat Empty :=
  .await (.pause 0 (.after sampleCounting))
    (Pending.empty.push fun value => Graph.leaveOnce (value + 1))

theorem sampleShared_blind : sampleShared.Blind Anywhere := by
  have counting : FuturesFollow Anywhere (.after sampleCounting) (.after sampleCounting) := by
    refine .after fun before before' worlds found answered => ?_
    cases answered
    exact .returned trivial (.ready 6)
  apply AsyncGraph.Blind.map
  · exact .fromAsync fun _ _ worlds => .pure worlds (.pause 1 counting)
  · exact fun value _ _ worlds => .pure worlds rfl
  · exact fun _ _ _ _ => trivial

theorem sampleShared_pending (world : Session Nat Nat) :
    (Future.ofGraph sampleShared).poll world =
      some (.ok (.pending .soon sampleSuspended), world) := by
  have paused : (Future.pause 1 (.after sampleCounting)).poll world =
      some (.ok (.pending .soon (.pause 0 (.after sampleCounting))), world) := by
    rw [Future.poll_pause_succ, Call.pure_apply]
  have visited : (Future.ofGraph sampleShared).poll =
      (Future.await (.pause 1 (.after sampleCounting))
        (Pending.empty.push fun value => Graph.leaveOnce (value + 1))).poll := by
    rw [Future.ofGraph, Future.poll_visit_of_bind rfl, Future.poll_visit_of_leaf rfl]
    simp only [pure_bind]
  rw [visited, Future.poll_eq_pollWith]
  exact Call.bind_of_ok paused

theorem sampleSuspended_ready (world : Session Nat Nat) :
    sampleSuspended.poll world = some (.ok (.ready 7),
      Host.emit (.asyncFinished 1) { world with user := world.user + 1 }) := by
  have counted : (Future.pause 0 (.after sampleCounting)).poll world =
      some (.ok (.ready 6), { world with user := world.user + 1 }) := by
    rw [Future.poll_pause_zero, Future.poll_after, sampleCounting, bind_assoc]
    simp only [pure_bind, Future.poll_ready]
    rfl
  have taken (value : Nat) (world : Session Nat Nat) :
      (Immediate.ready <$> Host.takeOnce (Host.leave value world).1 :
        Call (Session Nat Nat) (Future (Session Nat Nat) Nat Empty)) (Host.leave value world).2 =
          some (.ok (.ready value), world) :=
    Call.map_eq_ok_iff.mpr ⟨value, Host.takeOnce_leave value world, rfl⟩
  rw [sampleSuspended, Future.poll_eq_pollWith]
  refine (Call.bind_of_ok counted).trans ?_
  refine (Call.bind_of_ok rfl).trans ?_
  rw [Future.poll_visit_of_leaf rfl]
  refine (Call.bind_of_ok (taken _ _)).trans ?_
  rw [Future.poll_eq_pollWith]
  refine (Call.bind_of_ok (congrFun (Future.poll_ready _) _)).trans ?_
  rfl

theorem sampleShared_answers (world : Session Nat Nat) :
    (Future.ofGraph sampleShared).answers 2 world = some [.pending .soon, .ready 7] := by
  rw [Future.answers_of_left (sampleShared_pending world) rfl,
    Future.answers_of_ended (sampleSuspended_ready world) rfl]
  rfl

/-- Two runs of one graph, of which one is given up, while somebody else changes the count. -/
def sampleSchedule : List (Turn Bool (Session Nat Nat)) :=
  [.poll true, .poll false, .act fun world => { world with user := 40 }, .drop false, .poll true]

theorem shared_runs_undisturbed :
    ∃ moments last ended,
      play sampleSchedule (begun fun _ => sampleShared) (Session.start 0) =
        some (moments, last, ended) ∧
      (pollsOf true moments).map Polled.answer = [.pending .soon, .ready 7] := by
  rcases runs_undisturbed fun _ : Bool => sampleShared with ⟨_, _, _, independent, _, returns⟩
  have played := returns sampleSchedule (Session.start 0) fun which => by
    refine ⟨sampleShared_blind, Session.start 0, ?_⟩
    cases which with
    | true =>
        have polls_eq : pollsBefore true sampleSchedule = 2 := rfl
        simp [polls_eq, sampleShared_answers]
    | false =>
        have polls_eq : pollsBefore false sampleSchedule = 1 := rfl
        simp [polls_eq, Future.answers, sampleShared_pending, Future.left?]
  rcases Option.ne_none_iff_exists'.mp played with ⟨⟨moments, last, ended⟩, played⟩
  refine ⟨moments, last, ended, played, ?_⟩
  have answers_eq :=
    (independent true sampleShared_blind _ _ _ _ _ played).1 (Session.start 0)
  exact Option.some.inj (answers_eq.symm.trans (sampleShared_answers _))

end Sample

end Deferral

import Deferral.Proofs.Time.Elapsed

/-!
# What comes after a delay

A delay is a sleeping leaf with something to go on with. From a visit of a delay the run first
visits the leaf, then sleeps, and only then goes on. So everything that it visits after the leaf
comes at least as late as the sleep is long.
-/

namespace Deferral.Future

variable {σ V ρ : Type} [Host σ V]

section Step

variable [Equations ρ σ (Future σ V ρ) V] {future next : Future σ V ρ} {node : AsyncGraph σ V ρ}
  {before after : σ}

/-- A visit inside a leaf or a first future is a step of everything around it. -/
theorem Visits.exists_around (visits : future.Visits node) :
    ∃ (around : Future σ V ρ → Future σ V ρ)
      (pending : Pending (Graph.Continuation σ (Future σ V ρ) V ρ)),
      future.step = Stepped.map around <$> (Future.visit node pending).step ∧
        ∀ {inner : Future σ V ρ} {other : AsyncGraph σ V ρ},
          inner.Visits other → (around inner).Visits other := by
  induction visits with
  | visit node pending =>
      refine ⟨id, pending, ?_, id⟩
      rw [Stepped.map_id, id_map]
  | chain visits following ih =>
      rcases ih with ⟨around, pending, step_eq, keeps⟩
      refine ⟨fun inner => .chain (around inner) following, pending, ?_, fun inner => ?_⟩
      · rw [step_chain (value?_of_visits visits), step_eq, Functor.map_map]
        simp only [Stepped.map_map]
      · exact (keeps inner).chain following
  | await visits below ih =>
      rcases ih with ⟨around, pending, step_eq, keeps⟩
      refine ⟨fun inner => .await (around inner) below, pending, ?_, fun inner => ?_⟩
      · rw [step_await (value?_of_visits visits), step_eq, Functor.map_map]
        simp only [Stepped.map_map]
      · exact (keeps inner).await below

/-- A visit of a bind leads to a visit of its predecessor, and nothing happens. -/
theorem Visits.step_of_bind (visits : future.Visits node) {predecessor : AsyncGraph σ V ρ}
    {resume : Graph.Continuation σ (Future σ V ρ) V ρ}
    (shape_eq : node.shape = .bind predecessor resume)
    {stepped : Stepped σ V ρ} (step_eq : future.step before = some (.ok stepped, after)) :
    after = before ∧ ∃ next, stepped = .went next ∧ next.Visits predecessor := by
  rcases visits.exists_around with ⟨around, pending, around_eq, keeps⟩
  rw [around_eq, step_visit_of_bind shape_eq, map_pure] at step_eq
  cases step_eq
  exact ⟨rfl, _, rfl, keeps (.visit _ _)⟩

theorem Visits.not_suspended (visits : future.Visits node) {produce : Call σ (Future σ V ρ)}
    (shape_eq : node.shape = .leaf produce) {wake : Wake} :
    future.step before ≠ some (.ok (.suspended wake next), after) := by
  intro stepped
  rcases visits.exists_around with ⟨around, pending, around_eq, _⟩
  rw [around_eq, step_visit_of_leaf shape_eq, Functor.map_map] at stepped
  rcases Call.map_eq_ok_iff.mp stepped with ⟨_, _, stepped_eq⟩
  cases stepped_eq

end Step

variable [Unital V] [VirtualClock σ]

/-- Leaves that do the same sleep equally long. -/
theorem span_eq_of_fallAsleep_eq {first second : Nat} (world : σ)
    (same : (AsyncGraph.fallAsleep first : Call σ (Future σ V ρ)) = AsyncGraph.fallAsleep second) :
    VirtualClock.span σ first = VirtualClock.span σ second := by
  have produced := congrFun same world
  simp only [AsyncGraph.fallAsleep_apply, Option.some.injEq, Prod.mk.injEq, Except.ok.injEq,
    Future.sleep.injEq, Nat.add_left_cancel_iff] at produced
  exact produced.1.1

namespace Stage

variable [Equations ρ σ (Future σ V ρ) V] {paced : AsyncGraph σ V ρ → Prop}
  {began milliseconds : Nat} {stage next : Stage σ V ρ} {node sleeping : AsyncGraph σ V ρ}

theorem Moves.asleep_of_visits (moves : stage.Moves next) (timed : stage.Timed paced began)
    (visits : stage.future.Visits sleeping)
    (leaf_eq : sleeping.shape = .leaf (AsyncGraph.fallAsleep milliseconds)) :
    next.slept = stage.slept ∧ ∃ found, next.asleep = some found ∧
      VirtualClock.span σ found = VirtualClock.span σ milliseconds := by
  have awake := timed.awake_of_visits visits
  cases moves with
  | works _ wakeful => exact absurd ⟨sleeping, visits, leaf_eq⟩ (wakeful milliseconds)
  | @sleeps _ _ before _ _ found falls =>
      rcases falls with ⟨other, others, other_eq⟩
      cases others.unique visits
      rw [leaf_eq, Shape.leaf.injEq] at other_eq
      exact ⟨rfl, found, rfl, span_eq_of_fallAsleep_eq before other_eq.symm⟩
  | wakes => cases awake
  | waits stepped => exact absurd stepped (visits.not_suspended leaf_eq)

theorem Moves.visits_of_bind (moves : stage.Moves next) (timed : stage.Timed paced began)
    (visits : stage.future.Visits node) {resume : Graph.Continuation σ (Future σ V ρ) V ρ}
    (bind_eq : node.shape = .bind sleeping resume) :
    next.future.Visits sleeping ∧ next.world = stage.world ∧ next.slept = stage.slept := by
  have awake := timed.awake_of_visits visits
  cases moves with
  | works _ _ stepped =>
      rcases visits.step_of_bind bind_eq stepped with ⟨after_eq, _, stepped_eq, next_visits⟩
      cases stepped_eq
      exact ⟨next_visits, after_eq, rfl⟩
  | sleeps falls =>
      rcases falls with ⟨other, others, other_eq⟩
      cases others.unique visits
      rw [bind_eq] at other_eq
      cases other_eq
  | wakes => cases awake
  | waits stepped =>
      rcases visits.step_of_bind bind_eq stepped with ⟨_, _, stepped_eq, _⟩
      cases stepped_eq

variable (closed : ∀ graph, paced graph → PacedNode paced graph.shape)

include closed

/-- A sleep is still going on, or as much time has passed as it takes. -/
theorem Reaches.slept_since (reaches : stage.Reaches next) (timed : stage.Timed paced began)
    (asleep_eq : stage.asleep = some milliseconds) :
    next.asleep = some milliseconds ∧ next.slept = stage.slept ∨
      began + stage.timeSlept + VirtualClock.span σ milliseconds ≤ Host.now next.world := by
  induction reaches with
  | refl => exact .inl ⟨asleep_eq, rfl⟩
  | tail reaches moves ih =>
      have earlier_timed := (Reaches.keeps_time closed reaches timed).1
      have next_timed := moves.keeps_time closed earlier_timed
      rcases ih with ⟨still, slept_eq⟩ | past
      · cases moves with
        | works => cases still
        | sleeps => cases still
        | wakes =>
            cases still
            refine .inr (Nat.le_of_eq ?_)
            rw [next_timed.1.now_eq rfl]
            simp only [timeSlept, ← slept_eq, VirtualClock.spans]
            omega
        | waits => exact .inl ⟨still, slept_eq⟩
      · exact .inr (Nat.le_trans past next_timed.2)

/-- What is visited from a delay on is the delay itself and its leaf, as long as no sleep has ended,
and everything else comes after as much time as the delay is long. -/
theorem Reaches.delayed (reaches : stage.Reaches next) (timed : stage.Timed paced began)
    (visits : stage.future.Visits node) {resume : Graph.Continuation σ (Future σ V ρ) V ρ}
    (bind_eq : node.shape = .bind sleeping resume)
    (leaf_eq : sleeping.shape = .leaf (AsyncGraph.fallAsleep milliseconds))
    {later : AsyncGraph σ V ρ} (later_visits : next.future.Visits later) :
    (later = node ∨ later = sleeping) ∧ next.slept = stage.slept ∨
      Host.now stage.world + VirtualClock.span σ milliseconds ≤ Host.now next.world := by
  -- The delay is visited, then its leaf, and then the run sleeps.
  rcases reaches.cases_head with rfl | ⟨descended, descends, reaches⟩
  · exact .inl ⟨.inl (later_visits.unique visits), rfl⟩
  have descended_timed := (descends.keeps_time closed timed).1
  rcases descends.visits_of_bind timed visits bind_eq with
    ⟨leaf_visits, world_eq, descended_slept⟩
  rcases reaches.cases_head with rfl | ⟨fallen, falls, reaches⟩
  · exact .inl ⟨.inr (later_visits.unique leaf_visits), descended_slept⟩
  have fallen_timed := (falls.keeps_time closed descended_timed).1
  rcases falls.asleep_of_visits descended_timed leaf_visits leaf_eq with
    ⟨fallen_slept, found, asleep_eq, span_eq⟩
  rcases Reaches.slept_since closed reaches fallen_timed asleep_eq with ⟨still, _⟩ | past
  · have later_timed := (Reaches.keeps_time closed reaches fallen_timed).1
    cases (later_timed.awake_of_visits later_visits).symm.trans still
  · have now_eq := descended_timed.now_eq (descended_timed.awake_of_visits leaf_visits)
    simp only [timeSlept, fallen_slept] at past
    rw [← span_eq, ← world_eq, now_eq]
    exact .inr past

end Stage

end Deferral.Future

import Deferral.Proofs.Future.Polls

/-!
# Polling to the end

A future that nobody else interferes with can be polled until it is done. `Future.exhaust` does that
and counts the polls that found it unfinished, and `Future.Pends` is a number of such polls in a
row. A future that is never done has no answer here, like one whose poll never returns.
-/

namespace Deferral

/-- An answer that comes after so many more polls. -/
def Call.later {σ α : Type} (polls : Nat) (call : Call σ (α × Nat)) : Call σ (α × Nat) :=
  (fun (value, waits) => (value, polls + waits)) <$> call

namespace Call

variable {σ α : Type} {call : Call σ (α × Nat)} {before after : σ}

theorem later_eq_of_ok {value : α} {waits : Nat} (polls : Nat)
    (called : call before = some (.ok (value, waits), after)) :
    later polls call before = some (.ok (value, polls + waits), after) := by
  rw [later, map_apply, called]
  rfl

theorem later_eq_of_error {reason : Panic} (polls : Nat)
    (called : call before = some (.error reason, after)) :
    later polls call before = some (.error reason, after) := by
  rw [later, map_apply, called]
  rfl

theorem later_zero : later 0 call = call := by
  simp [later]

theorem later_later (first second : Nat) :
    later first (later second call) = later (first + second) call := by
  simp only [later, Functor.map_map, Nat.add_assoc]

theorem later_congr {other : Call σ (α × Nat)} {world world' : σ} (polls : Nat)
    (same : call world = other world') : later polls call world = later polls other world' := by
  simp only [later, map_apply, same]

end Call

namespace Future

variable {σ V ρ : Type} [Host σ V] [Equations ρ σ (Future σ V ρ) V]

/-- Poll until the value is there, with nothing in between, and count the polls before that. -/
def exhaust (future : Future σ V ρ) : Call σ (V × Nat) := do
  match ← future.poll with
  | .ready value => return (value, 0)
  | .pending _ rest =>
    let (value, waits) ← rest |>.exhaust
    return (value, 1 + waits)
partial_fixpoint

/-- So many polls in a row find the future unfinished and leave another future to be polled. -/
inductive Pends : Nat → Future σ V ρ → σ → Future σ V ρ → σ → Prop
  | start (future : Future σ V ρ) (world : σ) : Pends 0 future world future world
  | poll {polls : Nat} {future next rest : Future σ V ρ} {wake : Wake} {before between after : σ}
      (polled : future.poll before = some (.ok (.pending wake next), between))
      (later : Pends polls next between rest after) :
      Pends (polls + 1) future before rest after

section Polled

variable {future rest : Future σ V ρ} {before after : σ}

theorem exhaust_of_ready {value : V}
    (polled : future.poll before = some (.ok (.ready value), after)) :
    future.exhaust before = some (.ok (value, 0), after) := by
  rw [exhaust]
  exact Call.bind_of_ok polled

theorem exhaust_of_panic {reason : Panic}
    (polled : future.poll before = some (.error reason, after)) :
    future.exhaust before = some (.error reason, after) := by
  rw [exhaust]
  exact Call.bind_of_error polled

theorem exhaust_of_pending {wake : Wake}
    (polled : future.poll before = some (.ok (.pending wake rest), after)) :
    future.exhaust before = Call.later 1 rest.exhaust after := by
  rw [exhaust, Call.bind_of_ok polled]
  exact congrFun (map_eq_pure_bind _ _).symm after

end Polled

@[simp]
theorem exhaust_ready (value : V) :
    (Future.ready value : Future σ V ρ).exhaust = pure (value, 0) := by
  funext before
  exact exhaust_of_ready (congrFun (poll_eq_pollWith (.ready value)) before)

namespace Pends

variable {polls : Nat} {future rest : Future σ V ρ} {before after : σ}

theorem poll_last {wake : Wake} {next : Future σ V ρ} {end' : σ}
    (pends : Pends polls future before rest after)
    (polled : rest.poll after = some (.ok (.pending wake next), end')) :
    Pends (polls + 1) future before next end' := by
  induction pends with
  | start future world => exact .poll polled (.start _ _)
  | poll first _ ih => exact .poll first (ih polled)

/-- The polls that were made and those that are still to be made are all the polls. -/
theorem exhaust_eq (pends : Pends polls future before rest after) :
    future.exhaust before = Call.later polls rest.exhaust after := by
  induction pends with
  | start future world => rw [Call.later_zero]
  | poll polled _ ih =>
      rw [exhaust_of_pending polled, Call.later_congr 1 ih, Call.later_later, Nat.add_comm]

end Pends

/-- How a future comes to an answer: some polls find it unfinished, as many as are counted, and the
poll after these ends it. -/
def Exhausts (future : Future σ V ρ) (before : σ) : Except Panic (V × Nat) × σ → Prop
  | (.ok (value, waits), after) =>
    ∃ rest between, Pends waits future before rest between ∧
      rest.poll between = some (.ok (.ready value), after)
  | (.error reason, after) =>
    ∃ waits rest between, Pends waits future before rest between ∧
      rest.poll between = some (.error reason, after)

theorem exhausts_of_exhaust (future : Future σ V ρ) (before : σ)
    (answer : Except Panic (V × Nat) × σ) (exhausted : future.exhaust before = some answer) :
    future.Exhausts before answer := by
  refine exhaust.fixpoint_induct (fun exhaust => ∀ future before answer,
    exhaust future before = some answer → Exhausts future before answer)
    ?_ ?_ future before answer exhausted
  · exact fun _ _ => Call.answers_of_chain
      fun _ _ => ⟨fun order => by cases order <;> simp, by rintro (rfl | rfl) <;> constructor⟩
  · rintro exhaust ih future before ⟨ending, after⟩ exhausted
    rcases Call.bind_eq_some_iff.mp exhausted with
      ⟨reason, polled, rfl⟩ | ⟨value | ⟨wake, next⟩, between, polled, exhausted⟩
    · exact ⟨0, future, before, .start _ _, polled⟩
    · cases exhausted
      exact ⟨future, before, .start _ _, polled⟩
    · rcases Call.bind_eq_some_iff.mp exhausted with
        ⟨reason, later, rfl⟩ | ⟨⟨value, waits⟩, last, later, exhausted⟩
      · rcases ih next between _ later with ⟨waits, rest, here, pends, panicked⟩
        exact ⟨waits + 1, rest, here, .poll polled pends, panicked⟩
      · cases exhausted
        rcases ih next between _ later with ⟨rest, here, pends, ready⟩
        rw [Nat.add_comm]
        exact ⟨rest, here, .poll polled pends, ready⟩

theorem exhaust_eq_some_iff {future : Future σ V ρ} {before : σ}
    {answer : Except Panic (V × Nat) × σ} :
    future.exhaust before = some answer ↔ future.Exhausts before answer := by
  constructor
  · intro exhausted
    exact exhausts_of_exhaust future before answer exhausted
  · intro exhausts
    rcases answer with ⟨reason | ⟨value, waits⟩, after⟩
    · rcases exhausts with ⟨waits, rest, between, pends, panicked⟩
      rw [pends.exhaust_eq]
      exact Call.later_eq_of_error waits (exhaust_of_panic panicked)
    · rcases exhausts with ⟨rest, between, pends, ready⟩
      rw [pends.exhaust_eq]
      exact Call.later_eq_of_ok waits (exhaust_of_ready ready)

section Runs

variable {node : AsyncGraph σ V ρ}
  {pending : Pending (Graph.Continuation σ (Future σ V ρ) V ρ)}

/-- A run that visits a leaf goes on by waiting for it. -/
theorem exhaust_visit_of_leaf {produce : Call σ (Future σ V ρ)}
    (shape_eq : node.shape = .leaf produce) :
    (Future.visit node pending).exhaust = produce >>= fun leaf => (await leaf pending).exhaust := by
  rw [exhaust, poll_eq_pollWith]
  simp only [pollWith, shape_eq, bind_assoc]
  refine bind_congr fun leaf => ?_
  rw [exhaust]

theorem exhaust_visit_of_bind {predecessor : AsyncGraph σ V ρ}
    {resume : Graph.Continuation σ (Future σ V ρ) V ρ}
    (shape_eq : node.shape = .bind predecessor resume) :
    (Future.visit node pending).exhaust =
      (Future.visit predecessor (pending.push resume)).exhaust := by
  rw [exhaust, poll_eq_pollWith]
  simp only [pollWith, shape_eq]
  rw [exhaust]

variable {leaf : Future σ V ρ} {before after : σ}

/-- A run waits for its leaf as long as the leaf's future is unfinished. -/
theorem Pends.await {polls : Nat} {rest : Future σ V ρ}
    (pends : Pends polls leaf before rest after) :
    Pends polls (.await leaf pending) before (.await rest pending) after := by
  induction pends with
  | start future world => exact .start _ _
  | poll polled _ ih =>
      exact .poll ((congrFun (poll_eq_pollWith _) _).trans (Call.bind_of_ok polled)) ih

/-- A run whose leaf is done goes on with what waits for the value. -/
theorem exhaust_await_of_ready {value : V}
    (ready : leaf.poll before = some (.ok (.ready value), after)) :
    (await leaf pending).exhaust before =
      (match pending.pop? with
        | none => do
          Host.report (.asyncFinished pending.peak)
          return (value, 0)
        | some (resume, pending) => do
          let node ← resume value
          (Future.visit node pending).exhaust : Call σ (V × Nat)) after := by
  rw [exhaust, poll_eq_pollWith]
  simp only [pollWith, bind_assoc]
  rw [Call.bind_of_ok ready]
  rcases pending.pop? with _ | ⟨resume, rest⟩
  · rfl
  · simp only [bind_assoc]
    refine congrFun (bind_congr fun node => ?_) after
    rw [exhaust]

theorem exhaust_await_of_panic {reason : Panic}
    (panicked : leaf.poll before = some (.error reason, after)) :
    (await leaf pending).exhaust before = some (.error reason, after) := by
  apply exhaust_of_panic
  rw [poll_eq_pollWith]
  exact Call.bind_of_error panicked

end Runs

end Future

end Deferral

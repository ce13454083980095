import Deferral.Proofs.Future.Polls

/-!
# Polls step by step

A poll is told here as a sequence of small steps. Each step calls one function, asks for the end of
one wait, or only looks at the next node, so what a run has done at any moment can be said by how
many steps it took, also inside a poll that never returns.

A step inside a leaf is a step of the run that waits for the leaf, and of the runs around that one.
So steps are defined by recursion on the future, and `Future.poll_eq_some_iff` says that they are
all that a poll does.
-/

namespace Deferral

/-- What one step of a future leads to: the poll goes on, or is over. -/
inductive Stepped (σ V ρ : Type) where
  | went (next : Future σ V ρ)
  | suspended (wake : Wake) (rest : Future σ V ρ)

variable {σ V ρ : Type}

namespace Stepped

/-- The future that a step leads to, changed by a function. -/
def map (function : Future σ V ρ → Future σ V ρ) : Stepped σ V ρ → Stepped σ V ρ
  | .went next => .went (function next)
  | .suspended wake rest => .suspended wake (function rest)

@[simp]
theorem map_id : (map id : Stepped σ V ρ → Stepped σ V ρ) = id := by
  funext stepped
  cases stepped <;> rfl

@[simp]
theorem map_map (function later : Future σ V ρ → Future σ V ρ) (stepped : Stepped σ V ρ) :
    map later (map function stepped) = map (fun future => later (function future)) stepped := by
  cases stepped <;> rfl

variable {function : Future σ V ρ → Future σ V ρ} {call : Call σ (Stepped σ V ρ)}
  {last : Future σ V ρ} {before after : σ}

theorem went_of_map (stepped : (map function <$> call) before = some (.ok (.went last), after)) :
    ∃ next, call before = some (.ok (.went next), after) ∧ last = function next := by
  rcases Call.map_eq_ok_iff.mp stepped with ⟨next | ⟨wake, rest⟩, called, stepped_eq⟩
  · cases stepped_eq
    exact ⟨next, called, rfl⟩
  · cases stepped_eq

theorem suspended_of_map {wake : Wake}
    (stepped : (map function <$> call) before = some (.ok (.suspended wake last), after)) :
    ∃ rest, call before = some (.ok (.suspended wake rest), after) ∧ last = function rest := by
  rcases Call.map_eq_ok_iff.mp stepped with ⟨next | ⟨wake, rest⟩, called, stepped_eq⟩
  · cases stepped_eq
  · cases stepped_eq
    exact ⟨rest, called, rfl⟩

end Stepped

namespace Future

/-- The value of a future that has one. -/
def value? : Future σ V ρ → Option V
  | .ready value => some value
  | _ => none

theorem eq_ready_of_value? {future : Future σ V ρ} {value : V}
    (value_eq : future.value? = some value) : future = .ready value := by
  cases future with
  | ready found =>
      simp only [value?, Option.some.injEq] at value_eq
      rw [value_eq]
  | _ => simp [value?] at value_eq

section Step

variable [Host σ V]

/-- Hand the value of a leaf to the continuation that waited last, or end the run with it. -/
def deliver (value : V) (pending : Pending (Graph.Continuation σ (Future σ V ρ) V ρ)) :
    Call σ (Future σ V ρ) :=
  match pending.pop? with
  | some (resume, pending) => do return .visit (← resume value) pending
  | none => do
    Host.report (.asyncFinished pending.peak)
    return .ready value

variable [Equations ρ σ (Future σ V ρ) V]

/-- The next thing that a poll does. A future that is there stays as it is. -/
def step : Future σ V ρ → Call σ (Stepped σ V ρ)
  | .ready value => return .went (.ready value)
  | .pause 0 next => return .went next
  | .pause (times + 1) next => return .suspended .soon (.pause times next)
  | .sleep deadline value => do
    if ← Call.change (Host.endWait deadline) then
      return .went (.ready value)
    else
      return .suspended (.at deadline) (.sleep deadline value)
  | .begin call => do return .went (← call)
  | .chain first next =>
    match first.value? with
    | some value => do return .went (← next value)
    | none => do return (← first.step).map (.chain · next)
  | .visit node pending =>
    match node.shape with
    | .leaf produce => do return .went (.await (← produce) pending)
    | .bind predecessor resume => return .went (.visit predecessor (pending.push resume))
  | .await leaf pending =>
    match leaf.value? with
    | some value => do return .went (← deliver value pending)
    | none => do return (← leaf.step).map (.await · pending)

end Step

variable [Host σ V] [Equations ρ σ (Future σ V ρ) V]

section Constructors

variable {first leaf : Future σ V ρ} {next : V → Call σ (Future σ V ρ)}
  {node predecessor : AsyncGraph σ V ρ} {produce : Call σ (Future σ V ρ)}
  {resume : Graph.Continuation σ (Future σ V ρ) V ρ}
  {pending : Pending (Graph.Continuation σ (Future σ V ρ) V ρ)}

theorem step_chain_ready (value : V) (next : V → Call σ (Future σ V ρ)) :
    (chain (.ready value) next).step = Stepped.went <$> next value := by
  simp [step, value?]

theorem step_chain (unfinished : first.value? = none) :
    (chain first next).step = Stepped.map (.chain · next) <$> first.step := by
  simp [step, unfinished]

theorem step_visit_of_leaf (shape_eq : node.shape = .leaf produce) :
    (visit node pending).step = (fun leaf => .went (.await leaf pending)) <$> produce := by
  simp [step, shape_eq]

theorem step_visit_of_bind (shape_eq : node.shape = .bind predecessor resume) :
    (visit node pending).step = pure (.went (.visit predecessor (pending.push resume))) := by
  simp [step, shape_eq]

theorem step_await_ready (value : V)
    (pending : Pending (Graph.Continuation σ (Future σ V ρ) V ρ)) :
    (await (.ready value) pending).step = Stepped.went <$> deliver value pending := by
  simp [step, value?]

theorem step_await (unfinished : leaf.value? = none) :
    (await leaf pending).step = Stepped.map (.await · pending) <$> leaf.step := by
  simp [step, unfinished]

theorem step_sleep (deadline : Nat) (value : V) (before : σ) :
    (sleep deadline value : Future σ V ρ).step before =
      some (.ok (if (Host.endWait deadline before).1 then .went (.ready value)
        else .suspended (.at deadline) (.sleep deadline value)),
          (Host.endWait deadline before).2) := by
  rw [step, Call.bind_of_ok (Call.change_apply _ _)]
  cases (Host.endWait deadline before).1 <;> rfl

end Constructors

/-- The rest of a poll when its first step has been made. -/
def afterStep : Stepped σ V ρ → Call σ (Poll V (Future σ V ρ))
  | .went next => next.poll
  | .suspended wake rest => return .pending wake rest

/-- A poll is a step and then the rest of the poll. -/
theorem poll_eq_step (future : Future σ V ρ) : future.poll = future.step >>= afterStep := by
  -- The cases are those of `step`; a step inside a leaf or a first future comes with its
  -- hypothesis.
  induction future using step.induct with
  | case1 value => simp [step, afterStep]
  | case2 next => simp [step, afterStep, poll_pause_zero]
  | case3 times next => simp [step, afterStep, poll_pause_succ]
  | case4 deadline value =>
      rw [poll_eq_pollWith]
      simp only [step, pollWith, bind_assoc]
      apply bind_congr
      intro granted
      cases granted <;> simp [afterStep, poll_ready]
  | case5 call =>
      rw [poll_eq_pollWith]
      simp [step, pollWith, afterStep]
  | case6 first next value value_eq =>
      obtain rfl := eq_ready_of_value? value_eq
      rw [poll_eq_pollWith]
      simp [pollWith, poll_ready, step_chain_ready, afterStep]
  | case7 first next value_eq ih =>
      rw [poll_eq_pollWith]
      simp only [pollWith, ih, step_chain value_eq, bind_assoc, bind_map_left]
      apply bind_congr
      intro stepped
      cases stepped with
      | went rest =>
          simp only [Stepped.map, afterStep]
          rw [poll_eq_pollWith (.chain rest next)]
          rfl
      | suspended wake rest => simp [Stepped.map, afterStep]
  | case8 node pending produce shape_eq =>
      simp [poll_visit_of_leaf shape_eq, step_visit_of_leaf shape_eq, afterStep]
  | case9 node pending predecessor resume shape_eq =>
      simp [poll_visit_of_bind shape_eq, step_visit_of_bind shape_eq, afterStep]
  | case10 leaf pending value value_eq =>
      obtain rfl := eq_ready_of_value? value_eq
      rw [poll_eq_pollWith]
      simp only [pollWith, poll_ready, step_await_ready, pure_bind, bind_map_left, deliver]
      rcases pending.pop? with _ | ⟨resume, rest⟩ <;> simp [afterStep, poll_ready]
  | case11 leaf pending value_eq ih =>
      rw [poll_eq_pollWith]
      simp only [pollWith, ih, step_await value_eq, bind_assoc, bind_map_left]
      apply bind_congr
      intro stepped
      cases stepped with
      | went rest =>
          simp only [Stepped.map, afterStep]
          rw [poll_eq_pollWith (.await rest pending)]
          rfl
      | suspended wake rest => simp [Stepped.map, afterStep]

/-- Steps of one poll, none of which ends it. -/
inductive Goes : Future σ V ρ → σ → Future σ V ρ → σ → Prop
  | start (future : Future σ V ρ) (world : σ) : Goes future world future world
  | step {future next last : Future σ V ρ} {before between after : σ}
      (unfinished : future.value? = none)
      (stepped : future.step before = some (.ok (.went next), between))
      (rest : Goes next between last after) : Goes future before last after

/-- How a poll ends. -/
inductive Stops : Future σ V ρ → σ → Except Panic (Poll V (Future σ V ρ)) → σ → Prop
  | ready (value : V) (world : σ) : Stops (.ready value) world (.ok (.ready value)) world
  | suspended {future rest : Future σ V ρ} {wake : Wake} {before after : σ}
      (stepped : future.step before = some (.ok (.suspended wake rest), after)) :
      Stops future before (.ok (.pending wake rest)) after
  | panicked {future : Future σ V ρ} {reason : Panic} {before after : σ}
      (stepped : future.step before = some (.error reason, after)) :
      Stops future before (.error reason) after

variable {future next last leaf first : Future σ V ρ} {before between after : σ}

theorem value?_of_suspended {wake : Wake}
    (stepped : future.step before = some (.ok (.suspended wake next), after)) :
    future.value? = none := by
  cases future with
  | ready value => simp [step] at stepped
  | _ => rfl

theorem value?_of_panicked {reason : Panic}
    (stepped : future.step before = some (.error reason, after)) : future.value? = none := by
  cases future with
  | ready value => simp [step] at stepped
  | _ => rfl

namespace Goes

theorem trans {further : Future σ V ρ} {end' : σ} (goes : Goes future before last after)
    (more : Goes last after further end') : Goes future before further end' := by
  induction goes with
  | start => exact more
  | step unfinished stepped _ ih => exact .step unfinished stepped (ih more)

theorem step_last (goes : Goes future before last after) (unfinished : last.value? = none)
    {end' : σ}
    (stepped : last.step after = some (.ok (.went next), end')) : Goes future before next end' :=
  goes.trans (.step unfinished stepped (.start _ _))

theorem poll_eq (goes : Goes future before last after) : future.poll before = last.poll after := by
  induction goes with
  | start => rfl
  | step _ stepped _ ih =>
      rw [poll_eq_step, Call.bind_of_ok stepped]
      exact ih

theorem chain (goes : Goes first before last after) (next : V → Call σ (Future σ V ρ)) :
    Goes (.chain first next) before (.chain last next) after := by
  induction goes with
  | start => exact .start _ _
  | step unfinished stepped _ ih =>
      refine .step rfl ?_ ih
      rw [step_chain unfinished]
      exact Call.map_of_ok _ stepped

theorem await (goes : Goes leaf before last after)
    (pending : Pending (Graph.Continuation σ (Future σ V ρ) V ρ)) :
    Goes (.await leaf pending) before (.await last pending) after := by
  induction goes with
  | start => exact .start _ _
  | step unfinished stepped _ ih =>
      refine .step rfl ?_ ih
      rw [step_await unfinished]
      exact Call.map_of_ok _ stepped

end Goes

theorem Stops.poll_eq {ending : Except Panic (Poll V (Future σ V ρ))}
    (stops : Stops future before ending after) : future.poll before = some (ending, after) := by
  cases stops with
  | ready value =>
      rw [poll_ready]
      rfl
  | suspended stepped =>
      rw [poll_eq_step, Call.bind_of_ok stepped]
      rfl
  | panicked stepped => rw [poll_eq_step, Call.bind_of_error stepped]

/-- A poll that has an answer goes a number of steps and then stops. -/
def Answers (future : Future σ V ρ) (before : σ)
    (answer : Except Panic (Poll V (Future σ V ρ)) × σ) : Prop :=
  ∃ last between, Goes future before last between ∧ Stops last between answer.1 answer.2

theorem Answers.of_goes {answer : Except Panic (Poll V (Future σ V ρ)) × σ}
    (goes : Goes future before last after) (answers : last.Answers after answer) :
    future.Answers before answer := by
  rcases answers with ⟨further, between, more, stops⟩
  exact ⟨further, between, goes.trans more, stops⟩

theorem Answers.of_step {answer : Except Panic (Poll V (Future σ V ρ)) × σ}
    (unfinished : future.value? = none)
    (stepped : future.step before = some (.ok (.went next), between))
    (answers : next.Answers between answer) : future.Answers before answer :=
  answers.of_goes (.step unfinished stepped (.start _ _))

section Answered

variable {approx : Future σ V ρ → Call σ (Poll V (Future σ V ρ))}
  (answered : ∀ future before answer, approx future before = some answer →
    Answers future before answer)
  {answer : Except Panic (Poll V (Future σ V ρ)) × σ}

include answered

theorem answers_chain {next : V → Call σ (Future σ V ρ)}
    (polled : pollWith approx (.chain first next) before = some answer) :
    (chain first next).Answers before answer := by
  rcases answer with ⟨ending, after⟩
  rcases Call.bind_eq_some_iff.mp polled with
    ⟨reason, panicked, rfl⟩ | ⟨value | ⟨wake, rest⟩, between, first_polled, polled⟩
  · rcases answered _ _ _ panicked with ⟨last, middle, goes, stops⟩
    rcases stops with _ | _ | stepped
    refine ⟨_, _, goes.chain next, .panicked ?_⟩
    rw [step_chain (value?_of_panicked stepped)]
    exact Call.map_eq_error_iff.mpr stepped
  · rcases answered _ _ _ first_polled with ⟨last, middle, goes, stops⟩
    cases stops
    apply Answers.of_goes (goes.chain next)
    rcases Call.bind_eq_some_iff.mp polled with
      ⟨reason, panicked, rfl⟩ | ⟨future, resumed, called, polled⟩
    · refine ⟨_, _, .start _ _, .panicked ?_⟩
      rw [step_chain_ready]
      exact Call.map_eq_error_iff.mpr panicked
    · refine .of_step rfl ?_ (answered _ _ _ polled)
      rw [step_chain_ready]
      exact Call.map_of_ok _ called
  · cases polled
    rcases answered _ _ _ first_polled with ⟨last, middle, goes, stops⟩
    rcases stops with _ | stepped | _
    refine ⟨_, _, goes.chain next, .suspended ?_⟩
    rw [step_chain (value?_of_suspended stepped)]
    exact Call.map_of_ok _ stepped

theorem answers_await {pending : Pending (Graph.Continuation σ (Future σ V ρ) V ρ)}
    (polled : pollWith approx (.await leaf pending) before = some answer) :
    (await leaf pending).Answers before answer := by
  rcases answer with ⟨ending, after⟩
  rcases Call.bind_eq_some_iff.mp polled with
    ⟨reason, panicked, rfl⟩ | ⟨value | ⟨wake, rest⟩, between, leaf_polled, polled⟩
  · rcases answered _ _ _ panicked with ⟨last, middle, goes, stops⟩
    rcases stops with _ | _ | stepped
    refine ⟨_, _, goes.await pending, .panicked ?_⟩
    rw [step_await (value?_of_panicked stepped)]
    exact Call.map_eq_error_iff.mpr stepped
  · rcases answered _ _ _ leaf_polled with ⟨last, middle, goes, stops⟩
    cases stops
    apply Answers.of_goes (goes.await pending)
    rcases popped : pending.pop? with _ | ⟨resume, waiting⟩
    · simp only [popped] at polled
      cases polled
      refine .of_step rfl ?_ ⟨_, _, .start _ _, .ready value _⟩
      simp only [step_await_ready, deliver, popped]
      rfl
    · simp only [popped] at polled
      rcases Call.bind_eq_some_iff.mp polled with
        ⟨reason, panicked, rfl⟩ | ⟨node, resumed, called, polled⟩
      · refine ⟨_, _, .start _ _, .panicked ?_⟩
        simp only [step_await_ready, deliver, popped]
        exact Call.map_eq_error_iff.mpr (Call.bind_of_error panicked)
      · refine .of_step rfl ?_ (answered _ _ _ polled)
        simp only [step_await_ready, deliver, popped]
        exact Call.map_of_ok _ (Call.bind_of_ok called)
  · cases polled
    rcases answered _ _ _ leaf_polled with ⟨last, middle, goes, stops⟩
    rcases stops with _ | stepped | _
    refine ⟨_, _, goes.await pending, .suspended ?_⟩
    rw [step_await (value?_of_suspended stepped)]
    exact Call.map_of_ok _ stepped

end Answered

theorem answers_of_poll (future : Future σ V ρ) (before : σ)
    (answer : Except Panic (Poll V (Future σ V ρ)) × σ)
    (polled : future.poll before = some answer) :
    future.Answers before answer := by
  refine poll_induction Answers ?_ future before answer polled
  intro approx _ answered future before answer polled
  cases future with
  | ready value =>
      cases polled
      exact ⟨_, _, .start _ _, .ready value before⟩
  | pause times next =>
      cases times with
      | zero => exact .of_step rfl rfl (answered next before answer polled)
      | succ times =>
          cases polled
          exact ⟨_, _, .start _ _, .suspended rfl⟩
  | sleep deadline value =>
      rw [pollWith, Call.bind_of_ok (Call.change_apply _ _)] at polled
      have stepped := step_sleep (ρ := ρ) deadline value before
      rcases asked : Host.endWait deadline before with ⟨_ | _, world⟩
      · simp only [asked] at polled stepped
        cases polled
        exact ⟨_, _, .start _ _, .suspended stepped⟩
      · simp only [asked] at polled stepped
        cases polled
        exact .of_step rfl stepped ⟨_, _, .start _ _, .ready value _⟩
  | begin call =>
      rcases answer with ⟨ending, after⟩
      rcases Call.bind_eq_some_iff.mp polled with
        ⟨reason, panicked, rfl⟩ | ⟨next, between, called, polled⟩
      · exact ⟨_, _, .start _ _, .panicked (Call.bind_of_error panicked)⟩
      · exact .of_step rfl (Call.bind_of_ok called) (answered next between _ polled)
  | chain first next => exact answers_chain answered polled
  | visit node pending =>
      rcases shape_eq : node.shape with produce | ⟨predecessor, resume⟩
      · simp only [pollWith, shape_eq] at polled
        rcases answer with ⟨ending, after⟩
        rcases Call.bind_eq_some_iff.mp polled with
          ⟨reason, panicked, rfl⟩ | ⟨leaf, between, produced, polled⟩
        · refine ⟨_, _, .start _ _, .panicked ?_⟩
          rw [step_visit_of_leaf shape_eq]
          exact Call.map_eq_error_iff.mpr panicked
        · refine .of_step rfl ?_ (answered _ _ _ polled)
          rw [step_visit_of_leaf shape_eq]
          exact Call.map_of_ok _ produced
      · simp only [pollWith, shape_eq] at polled
        refine .of_step rfl ?_ (answered _ _ _ polled)
        rw [step_visit_of_bind shape_eq]
        rfl
  | await leaf pending => exact answers_await answered polled

/-- Steps are all that a poll does. -/
theorem poll_eq_some_iff {answer : Except Panic (Poll V (Future σ V ρ)) × σ} :
    future.poll before = some answer ↔ future.Answers before answer := by
  constructor
  · intro polled
    exact answers_of_poll future before answer polled
  · rintro ⟨last, between, goes, stops⟩
    rw [goes.poll_eq]
    exact stops.poll_eq

end Future

end Deferral

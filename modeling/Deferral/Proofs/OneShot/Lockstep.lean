import Deferral.Proofs.OneShot.Replacement

/-!
# Replaced maps run in lockstep

Computations that are paired by a `Replacement` are in lockstep. At a map the continuations lead to
graphs that are not paired, a leaf to be visited once and a leaf for good. In the world that the
continuation leaves both yield the mapped value, and nobody but the run that is just being driven
can visit the first of them.
-/

namespace Deferral

section Leaf

variable {ω V L L' ρ ρ' : Type} [Immediate V L] [Immediate V L'] [Equations ρ (Session ω V) L V]
  [Equations ρ' (Session ω V) L' V] {before before' : Session ω V}

/-- A leaf for a value that was just left yields what a leaf yields that has the value for good. -/
theorem leaveOnce_alike (raised : Panic → Prop)
    (related : Graph (Session ω V) L V ρ → Graph (Session ω V) L' V ρ' → Prop) (value : V)
    (same : before.Same before') :
    AnswersAlike raised (Next related)
      ((Graph.leaveOnce value : Call (Session ω V) (Graph (Session ω V) L V ρ)) before)
      ((pure (Graph.of value) : Call (Session ω V) (Graph (Session ω V) L' V ρ')) before') := by
  have yields : YieldSame (Graph.once (Host.leave value before).1 : Graph (Session ω V) L V ρ)
      (Host.leave value before).2 (Graph.of value : Graph (Session ω V) L' V ρ') before' := by
    refine ⟨_, _, value, before, before', rfl, rfl, ?_, rfl, same⟩
    rw [map_eq_pure_bind, Call.bind_of_ok (Host.takeOnce_leave value before)]
    rfl
  exact .returned ⟨same.leave value, .inr yields⟩

end Leaf

variable {ι : Type} {Base : ι → Type} {ω ρ ρ' η η' : Type}

theorem tagged_alike {raised : Panic → Prop} {t : Ty ι}
    {call call' : Call (TypedSession Base ω) (t.Value Base)} (calls : call.Alike raised Eq call') :
    (Deferred.tagged call).Alike raised Eq (Deferred.tagged call') :=
  calls.bind fun _ _ same => .pure (same ▸ rfl)

variable [DecidableEq ι]

theorem expect_alike {raised : Panic → Prop} {complaint : String}
    (complaint_raised : raised (.text complaint)) (t : Ty ι) (value : Tagged Base) :
    (value.expect complaint t : Call (TypedSession Base ω) (t.Value Base)).Alike raised Eq
      (value.expect complaint t) := by
  unfold Tagged.expect
  cases value.as? t with
  | none => exact .panic complaint_raised
  | some found => exact .pure rfl

section Sync

variable [Definitions Base ρ (TypedSession Base ω)] [Definitions Base ρ' (TypedSession Base ω)]
  {raised : Panic → Prop} {sync : Pairing Base ω ρ ρ'}

/-- The graphs of paired computations. -/
inductive Paired (sync : Pairing Base ω ρ ρ') :
    Graph (TypedSession Base ω) (Tagged Base) (Tagged Base) ρ →
      Graph (TypedSession Base ω) (Tagged Base) (Tagged Base) ρ' → Prop
  | computation {t : Ty ι} {first : Deferred Base (TypedSession Base ω) ρ t}
      {second : Deferred Base (TypedSession Base ω) ρ' t} (pair : sync first second) :
      Paired sync first.graph second.graph
  | endless {t : Ty ι} {body : Deferred Base (TypedSession Base ω) ρ t}
      {body' : Deferred Base (TypedSession Base ω) ρ' t} (bodies : sync body body') :
      Paired sync body.forever.graph body'.forever.graph

theorem checked_alike (mismatch_raised : raised (.text Deferred.mismatch)) {s t : Ty ι}
    {function : s.Value Base →
      Call (TypedSession Base ω) (Deferred Base (TypedSession Base ω) ρ t)}
    {function' : s.Value Base →
      Call (TypedSession Base ω) (Deferred Base (TypedSession Base ω) ρ' t)}
    (functions : ∀ value, (function value).Alike raised (@sync t) (function' value)) :
    ContinuationsAlike raised (Paired sync) (Deferred.checked function)
      (Deferred.checked function') := by
  intro value before before' same
  refine (expect_alike mismatch_raised s value same).bind ?_
  rintro found _ _ _ ⟨rfl, same⟩
  refine (functions found same).bind ?_
  exact fun next _ next' _ pair => .returned ⟨pair.2, .inl (.computation pair.1)⟩

theorem mapped_alike (mismatch_raised : raised (.text Deferred.mismatch)) {s t : Ty ι}
    {function function' : s.Value Base → Call (TypedSession Base ω) (t.Value Base)}
    (functions : ∀ value, (function value).Alike raised Eq (function' value)) :
    ContinuationsAlike raised (Paired sync)
      (Deferred.checked fun value => (do
        let result ← Deferred.tagged (function value)
        return ⟨← Graph.leaveOnce result⟩ :
        Call (TypedSession Base ω) (Deferred Base (TypedSession Base ω) ρ t)))
      (Deferred.checked fun value => (do return .of (← function' value) :
        Call (TypedSession Base ω) (Deferred Base (TypedSession Base ω) ρ' t))) := by
  intro value before before' same
  refine (expect_alike mismatch_raised s value same).bind ?_
  rintro found _ _ _ ⟨rfl, same⟩
  simp only [Deferred.tagged, bind_assoc, pure_bind]
  refine (functions found same).bind ?_
  rintro result after _ after' ⟨rfl, same⟩
  rw [bind_pure]
  exact leaveOnce_alike raised (Paired sync) ⟨t, result⟩ same

theorem forever_alike (mismatch_raised : raised (.text Deferred.mismatch)) {t : Ty ι}
    {body : Deferred Base (TypedSession Base ω) ρ t}
    {body' : Deferred Base (TypedSession Base ω) ρ' t} (bodies : sync body body') :
    ShapesAlike raised Eq (Paired sync) body.forever.graph.shape body'.forever.graph.shape := by
  refine .bind (.computation bodies) fun value before before' same => ?_
  have accepts : Call.Alike raised Eq
      (do let _ ← value.expect Deferred.mismatch t : Call (TypedSession Base ω) Unit)
      (do let _ ← value.expect Deferred.mismatch t : Call (TypedSession Base ω) Unit) :=
    (expect_alike mismatch_raised t value).bind fun _ _ _ => .pure rfl
  refine (accepts same).bind ?_
  exact fun _ _ _ _ values => .returned ⟨values.2, .inl (.endless bodies)⟩

/-- Computations that are made in the same way have nodes that are alike. -/
theorem Made.shapes (mismatch_raised : raised (.text Deferred.mismatch)) {t : Ty ι}
    {first : Deferred Base (TypedSession Base ω) ρ t}
    {second : Deferred Base (TypedSession Base ω) ρ' t} (made : Made raised sync first second) :
    ShapesAlike raised Eq (Paired sync) first.graph.shape second.graph.shape := by
  induction made with
  | fromThunk produces =>
      exact .leaf ((tagged_alike produces).map fun _ _ same => congrArg Immediate.ready same)
  | of value => exact .leaf (.pure rfl)
  | map firsts functions =>
      exact .bind (.computation firsts) (mapped_alike mismatch_raised functions)
  | flatMap firsts functions =>
      exact .bind (.computation firsts) (checked_alike mismatch_raised functions)
  | andThen firsts seconds =>
      exact .bind (.computation firsts) (checked_alike mismatch_raised fun _ => .pure seconds)
  | forever bodies => exact forever_alike mismatch_raised bodies
  | named shape_eq shape_eq' _ ih =>
      rw [shape_eq, shape_eq']
      exact ih

theorem Paired.lockstep (mismatch_raised : raised (.text Deferred.mismatch))
    (sync_made : ∀ {t : Ty ι} {first second}, @sync t first second →
      Made raised sync first second) :
    Lockstep raised Eq (Paired sync) := by
  intro graph graph' pair
  cases pair with
  | computation pair => exact (sync_made pair).shapes mismatch_raised
  | endless bodies => exact forever_alike mismatch_raised bodies

section Run

variable (mismatch_raised : raised (.text Deferred.mismatch))
  (sync_made : ∀ {t : Ty ι} {first second}, @sync t first second → Made raised sync first second)
  {t : Ty ι} {computation : Deferred Base (TypedSession Base ω) ρ t}
  {computation' : Deferred Base (TypedSession Base ω) ρ' t}
  (computations : sync computation computation')

include mismatch_raised sync_made computations

theorem run_alike : computation.run.Alike raised Eq computation'.run := by
  have lockstep := Paired.lockstep mismatch_raised sync_made
  refine (lockstep.run (.computation computations)).bind ?_
  rintro value _ rfl
  exact expect_alike mismatch_raised t value

theorem runWith_alike (overflow_raised : raised (.text "capacity overflow"))
    (options : RunOptions) :
    (computation.runWith options).Alike raised Eq (computation'.runWith options) := by
  have lockstep := Paired.lockstep mismatch_raised sync_made
  refine (lockstep.runWith overflow_raised (.computation computations) options).bind ?_
  rintro (error | completed) _ rfl
  · exact .pure rfl
  · exact (expect_alike mismatch_raised t completed.value).bind fun _ _ same => .pure (same ▸ rfl)

end Run

end Sync

section Async

variable [Definitions Base ρ (TypedSession Base ω)] [Definitions Base ρ' (TypedSession Base ω)]
  [AsyncDefinitions Base η (TypedSession Base ω)]
  [AsyncDefinitions Base η' (TypedSession Base ω)] {raised : Panic → Prop}
  {sync : Pairing Base ω ρ ρ'} {async : AsyncPairing Base ω η η'}

/-- The graphs of paired asynchronous computations, and of the sleeps in front of them. -/
inductive AsyncPaired (async : AsyncPairing Base ω η η') :
    AsyncGraph (TypedSession Base ω) (Tagged Base) η →
      AsyncGraph (TypedSession Base ω) (Tagged Base) η' → Prop
  | computation {t : Ty ι} {first : AsyncDeferred Base (TypedSession Base ω) η t}
      {second : AsyncDeferred Base (TypedSession Base ω) η' t} (pair : async first second) :
      AsyncPaired async first.graph second.graph
  | endless {t : Ty ι} {body : AsyncDeferred Base (TypedSession Base ω) η t}
      {body' : AsyncDeferred Base (TypedSession Base ω) η' t} (bodies : async body body') :
      AsyncPaired async body.forever.graph body'.forever.graph
  | sleep (milliseconds : Nat) :
      AsyncPaired async (AsyncGraph.sleep milliseconds) (AsyncGraph.sleep milliseconds)

theorem asyncChecked_alike (mismatch_raised : raised (.text Promise.mismatch)) {s t : Ty ι}
    {function : s.Value Base →
      Call (TypedSession Base ω) (AsyncDeferred Base (TypedSession Base ω) η t)}
    {function' : s.Value Base →
      Call (TypedSession Base ω) (AsyncDeferred Base (TypedSession Base ω) η' t)}
    (functions : ∀ value, (function value).Alike raised (@async t) (function' value)) :
    ContinuationsAlike raised (AsyncPaired async) (AsyncDeferred.checked function)
      (AsyncDeferred.checked function') := by
  intro value before before' same
  refine (expect_alike mismatch_raised s value same).bind ?_
  rintro found _ _ _ ⟨rfl, same⟩
  refine (functions found same).bind ?_
  exact fun next _ next' _ pair => .returned ⟨pair.2, .inl (.computation pair.1)⟩

theorem asyncMapped_alike (mismatch_raised : raised (.text Promise.mismatch)) {s t : Ty ι}
    {function function' : s.Value Base → Call (TypedSession Base ω) (t.Value Base)}
    (functions : ∀ value, (function value).Alike raised Eq (function' value)) :
    ContinuationsAlike raised (AsyncPaired async)
      (AsyncDeferred.checked fun value => (do
        let result ← Deferred.tagged (function value)
        return ⟨← Graph.leaveOnce result⟩ :
        Call (TypedSession Base ω) (AsyncDeferred Base (TypedSession Base ω) η t)))
      (AsyncDeferred.checked fun value => (do return .of (← function' value) :
        Call (TypedSession Base ω) (AsyncDeferred Base (TypedSession Base ω) η' t))) := by
  intro value before before' same
  refine (expect_alike mismatch_raised s value same).bind ?_
  rintro found _ _ _ ⟨rfl, same⟩
  simp only [Deferred.tagged, bind_assoc, pure_bind]
  refine (functions found same).bind ?_
  rintro result after _ after' ⟨rfl, same⟩
  rw [bind_pure]
  exact leaveOnce_alike raised (AsyncPaired async) ⟨t, result⟩ same

theorem asyncForever_alike (mismatch_raised : raised (.text Promise.mismatch)) {t : Ty ι}
    {body : AsyncDeferred Base (TypedSession Base ω) η t}
    {body' : AsyncDeferred Base (TypedSession Base ω) η' t} (bodies : async body body') :
    ShapesAlike raised (BuiltAlike raised (AsyncPaired async)) (AsyncPaired async)
      body.forever.graph.shape body'.forever.graph.shape := by
  refine .bind (.computation bodies) fun value before before' same => ?_
  have accepts : Call.Alike raised Eq
      (do let _ ← value.expect Promise.mismatch t : Call (TypedSession Base ω) Unit)
      (do let _ ← value.expect Promise.mismatch t : Call (TypedSession Base ω) Unit) :=
    (expect_alike mismatch_raised t value).bind fun _ _ _ => .pure rfl
  refine (accepts same).bind ?_
  exact fun _ _ _ _ values => .returned ⟨values.2, .inl (.endless bodies)⟩

theorem sleep_alike (milliseconds : Nat) :
    ShapesAlike raised (BuiltAlike raised (AsyncPaired async)) (AsyncPaired async)
      (AsyncGraph.sleep milliseconds : AsyncGraph (TypedSession Base ω) (Tagged Base) η).shape
      (AsyncGraph.sleep milliseconds : AsyncGraph (TypedSession Base ω)
        (Tagged Base) η').shape := by
  refine .leaf ((Call.Alike.report _).bind fun _ _ _ => ?_)
  refine (Call.Alike.read fun _ _ same => same.deadline_eq milliseconds).bind ?_
  rintro deadline _ rfl
  exact .pure (.alike (.sleep deadline _))

/-- Asynchronous computations that are made in the same way have nodes that are alike. -/
theorem AsyncMade.shapes (library_raised : ∀ reason, LibraryPanic reason → raised reason)
    (sync_made : ∀ {t : Ty ι} {first second}, @sync t first second → Made raised sync first second)
    {t : Ty ι} {first : AsyncDeferred Base (TypedSession Base ω) η t}
    {second : AsyncDeferred Base (TypedSession Base ω) η' t}
    (made : AsyncMade raised sync async first second) :
    ShapesAlike raised (BuiltAlike raised (AsyncPaired async)) (AsyncPaired async)
      first.graph.shape second.graph.shape := by
  have mismatch_raised := library_raised _ .promiseMismatch
  induction made with
  | fromThunk produces =>
      exact .leaf ((tagged_alike produces).map fun _ _ same => same ▸ .alike (.ready _))
  | of value => exact .leaf (.pure (.alike (.ready _)))
  | fromAsync actions => exact .leaf (actions.bind fun _ _ promises => .pure (.alike promises))
  | fromDeferred computations =>
      have runs := run_alike (library_raised _ .mismatch) sync_made computations
      exact .leaf ((tagged_alike runs).map fun _ _ same => same ▸ .alike (.ready _))
  | map firsts functions =>
      exact .bind (.computation firsts) (asyncMapped_alike mismatch_raised functions)
  | flatMap firsts functions =>
      exact .bind (.computation firsts) (asyncChecked_alike mismatch_raised functions)
  | andThen firsts seconds =>
      exact .bind (.computation firsts) (asyncChecked_alike mismatch_raised fun _ => .pure seconds)
  | forever bodies => exact asyncForever_alike mismatch_raised bodies
  | sleep milliseconds => exact sleep_alike milliseconds
  | delay computations milliseconds =>
      exact .bind (.sleep milliseconds)
        (asyncChecked_alike mismatch_raised fun _ => .pure computations)
  | @repeated t _ _ bodies count =>
      have accepts : ∀ value : Tagged Base, Call.Alike raised Eq
          (value.expect Promise.mismatch t : Call (TypedSession Base ω) (t.Value Base))
          (value.expect Promise.mismatch t) := expect_alike mismatch_raised t
      refine .leaf ((Call.Alike.reserve (library_raised _ .capacity) _ count).bind fun _ _ _ => ?_)
      exact .pure (.rounds (.computation bodies) accepts count count [])
  | named shape_eq shape_eq' _ ih =>
      rw [shape_eq, shape_eq']
      exact ih

end Async

namespace Replacement

variable [Definitions Base ρ (TypedSession Base ω)] [Definitions Base ρ' (TypedSession Base ω)]
  [AsyncDefinitions Base η (TypedSession Base ω)]
  [AsyncDefinitions Base η' (TypedSession Base ω)] {raised : Panic → Prop}
  (replacement : Replacement raised Base ω ρ ρ' η η')

theorem asyncLockstep :
    Lockstep raised (BuiltAlike raised (AsyncPaired replacement.async))
      (AsyncPaired replacement.async) := by
  intro graph graph' pair
  have mismatch_raised := replacement.library_raised _ .promiseMismatch
  cases pair with
  | computation pair =>
      exact (replacement.async_made pair).shapes replacement.library_raised replacement.sync_made
  | endless bodies => exact asyncForever_alike mismatch_raised bodies
  | sleep milliseconds => exact sleep_alike milliseconds

section Sync

variable {t : Ty ι} {computation : Deferred Base (TypedSession Base ω) ρ t}
  {computation' : Deferred Base (TypedSession Base ω) ρ' t}
  (computations : replacement.sync computation computation')

include computations

theorem run : computation.run.Alike raised Eq computation'.run :=
  run_alike (replacement.library_raised _ .mismatch) replacement.sync_made computations

theorem runWith (options : RunOptions) :
    (computation.runWith options).Alike raised Eq (computation'.runWith options) :=
  runWith_alike (replacement.library_raised _ .mismatch) replacement.sync_made computations
    (replacement.library_raised _ .capacity) options

theorem tryRun : computation.tryRun.Alike raised Eq computation'.tryRun :=
  (replacement.run computations).capture

end Sync

theorem promises {t : Ty ι} {computation : AsyncDeferred Base (TypedSession Base ω) η t}
    {computation' : AsyncDeferred Base (TypedSession Base ω) η' t}
    (computations : replacement.async computation computation') :
    PromisesAlike raised computation.run computation'.run :=
  BuiltAlike.futures replacement.asyncLockstep (.run (.computation computations))

end Replacement

end Deferral

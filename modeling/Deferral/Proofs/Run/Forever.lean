import Deferral.Proofs.Run.Above
import Deferral.Proofs.Run.Parts
import Deferral.Typed.Deferred

/-!
# Endless repetition

A cycle runs its body again and again. `Graph.Rounds` tells the rounds that were completed: each is
a run of the body on its own, from the world that the round before left, whose value was accepted. A
round costs one visit more than the run of the body, and lets one more continuation wait. When a
round is completed nothing waits, so the stack of a cycle is as deep as that of its deepest round,
however many rounds there are.

A limit cuts the last round. That round is then a run of the body of which only the first visits are
made.
-/

namespace Deferral

/-- The visits that rounds of these sizes take, each with the bind that begins it. -/
def roundVisits : List RunStats → Nat
  | [] => 0
  | size :: sizes => 1 + size.steps + roundVisits sizes

/-- The largest number of continuations that wait at once in rounds of these sizes. -/
def roundDepth : List RunStats → Nat
  | [] => 0
  | size :: sizes => max (1 + size.peakStackDepth) (roundDepth sizes)

namespace Graph

variable {σ V ρ : Type} [Equations ρ σ V V]

/-- Completed rounds, with the size of the body's run in each, the first round first. -/
inductive Rounds (body : Graph σ V V ρ) (accept : V → Call σ Unit) :
    List RunStats → σ → σ → Prop
  | start (world : σ) : Rounds body accept [] world world
  | round {sizes : List RunStats} {size : RunStats} {before between resumed after : σ} {value : V}
      (finishes : body.Finishes before value size between)
      (accepted : accept value between = some (.ok (), resumed))
      (rest : Rounds body accept sizes resumed after) :
      Rounds body accept (size :: sizes) before after

/-- A round panics in one of the visits of the body, or when the body's value is not accepted. -/
inductive RoundPanics (body : Graph σ V V ρ) (accept : V → Call σ Unit) :
    Nat → σ → Panic → σ → Prop
  | body {visits : Nat} {before after : σ} {reason : Panic}
      (ends : Machine.Ends visits (Machine.start body) before (.error reason) after) :
      RoundPanics body accept visits before reason after
  | value {visits : Nat} {before between after : σ} {value : V} {size : RunStats} {reason : Panic}
      (ends : Machine.Ends visits (Machine.start body) before (.ok (value, size)) between)
      (refused : accept value between = some (.error reason, after)) :
      RoundPanics body accept visits before reason after

/-- A round makes so many visits of the body, and then a call does not return. -/
inductive RoundHangs (body : Graph σ V V ρ) (accept : V → Call σ Unit) : Nat → σ → Prop
  | body {visits : Nat} {before : σ} (hangs : (Machine.start body).Hangs visits before) :
      RoundHangs body accept visits before
  | value {visits : Nat} {before between : σ} {value : V} {size : RunStats}
      (ends : Machine.Ends (visits + 1) (Machine.start body) before (.ok (value, size)) between)
      (hangs : accept value between = none) :
      RoundHangs body accept visits before

variable {body : Graph σ V V ρ} {accept : V → Call σ Unit} {sizes : List RunStats}
  {visits mark steps allowed : Nat} {before between after : σ}

/-- What waits in a cycle while its body runs. -/
def nextRound (body : Graph σ V V ρ) (accept : V → Call σ Unit) : Continuation σ V V ρ :=
  fun value => do
    let () ← accept value
    return .cycle body accept

theorem shape_cycle (body : Graph σ V V ρ) (accept : V → Call σ Unit) :
    (Graph.cycle body accept).shape = .bind body (body.nextRound accept) := rfl

/-- A cycle between two rounds, with nothing waiting. -/
abbrev headOf (body : Graph σ V V ρ) (accept : V → Call σ Unit) (mark steps : Nat) :
    Machine σ V ρ :=
  ⟨.cycle body accept, Pending.empty.raise mark, steps⟩

/-- One round leads from head to head. -/
theorem reaches_of_round {value : V} {size : RunStats} {resumed : σ}
    (finishes : body.Finishes before value size between)
    (accepted : accept value between = some (.ok (), resumed)) (mark steps : Nat) :
    Machine.Reaches (1 + size.steps) (headOf body accept mark steps) before
      (headOf body accept (max mark (1 + size.peakStackDepth)) (steps + (1 + size.steps)))
      resumed := by
  have again : body.nextRound accept value between = some (.ok (.cycle body accept), resumed) :=
    Call.bind_of_ok accepted
  have ends := finishes.ends
  rw [headOf, headOf, ← Pending.raise_raise, ← Nat.add_assoc]
  exact Machine.reaches_of_resumed ends (shape_cycle body accept) again

/-- Inside a round one more continuation waits than in the run of the body on its own. -/
theorem reaches_of_cut {last : Machine σ V ρ}
    (reaches : Machine.Reaches visits (Machine.start body) before last after)
    (accept : V → Call σ Unit) (mark steps : Nat) :
    ∃ cut, Machine.Reaches (1 + visits) (headOf body accept mark steps) before cut after ∧
      cut.pending.waiting.length = 1 + last.pending.waiting.length ∧
      cut.pending.peak = max mark (1 + last.pending.peak) := by
  refine ⟨last.above ((Pending.empty.raise mark).push (body.nextRound accept)) (steps + 1),
    (Machine.reaches_predecessor (shape_cycle body accept)).trans
      (reaches.above Pending.sound_empty), ?_, ?_⟩
  · simp [Machine.above, Pending.above, Pending.raise, Nat.add_comm]
  · simp only [Machine.above, Pending.above, Pending.raise, Pending.peak_push, Pending.depth_push,
      Pending.peak_empty, Pending.depth_empty]
    omega

theorem RoundPanics.ends {reason : Panic}
    (panics : body.RoundPanics accept visits before reason after) (mark steps : Nat) :
    Machine.Ends (1 + visits) (headOf body accept mark steps) before (.error reason) after := by
  cases panics with
  | body ends => exact Machine.ends_of_predecessor_panics (shape_cycle body accept) ends
  | value ends refused =>
      have refused : body.nextRound accept _ _ = some (.error reason, after) :=
        Call.bind_of_error refused
      exact Machine.ends_of_resume_panics ends (shape_cycle body accept) refused

theorem RoundHangs.hangs (hangs : body.RoundHangs accept visits before) (mark steps : Nat) :
    (headOf body accept mark steps).Hangs (1 + visits) before := by
  cases hangs with
  | body hangs => exact Machine.hangs_of_predecessor_hangs (shape_cycle body accept) hangs
  | value ends hangs =>
      have hangs : body.nextRound accept _ _ = none := Call.bind_of_none hangs
      rw [Nat.add_comm]
      exact Machine.hangs_of_resume_hangs ends (shape_cycle body accept) hangs

theorem Rounds.reaches (rounds : body.Rounds accept sizes before after) (mark steps : Nat) :
    Machine.Reaches (roundVisits sizes) (headOf body accept mark steps) before
      (headOf body accept (max mark (roundDepth sizes)) (steps + roundVisits sizes)) after := by
  induction rounds generalizing mark steps with
  | start world =>
      rw [roundDepth, Nat.max_zero]
      exact Machine.Reaches.start (headOf body accept mark steps) world
  | round finishes accepted _ ih =>
      have reaches := (reaches_of_round finishes accepted mark steps).trans (ih _ _)
      rw [Nat.max_assoc, Nat.add_assoc steps] at reaches
      exact reaches

/-- The answer of a run that its limit stopped. -/
def stoppedAt [Host σ V] {α : Type} (limit : UInt64) (peak pending : Nat) (after : σ) :
    Option (Except Panic (Except RunError (Completed α)) × σ) :=
  some (.ok (.error (.stepLimitExceeded limit ⟨limit.toNat, peak⟩)),
    Host.emit (.limitReached ⟨limit.toNat, peak⟩ pending) after)

/-- What becomes of a limited run between two rounds, with the depth of the rounds so far, when so
many visits are left. -/
inductive LastRound [Host σ V] {α : Type} (body : Graph σ V V ρ) (accept : V → Call σ Unit)
    (limit : UInt64) (depth : Nat) :
    Nat → σ → Option (Except Panic (Except RunError (Completed α)) × σ) → Prop
  | spent (world : σ) : LastRound body accept limit depth 0 world (stoppedAt limit depth 0 world)
  | cut {visits peak : Nat} {before after : σ} {last : Machine σ V ρ}
      (reaches : Machine.Reaches visits (Machine.start body) before last after)
      (greatest : IsGreatest (Machine.depths visits (Machine.start body) before) peak) :
      LastRound body accept limit depth (1 + visits) before
        (stoppedAt limit (max depth (1 + peak)) (1 + last.pending.waiting.length) after)
  | panics {visits left : Nat} {before after : σ} {reason : Panic}
      (panics : body.RoundPanics accept visits before reason after) (le : 1 + visits ≤ left) :
      LastRound body accept limit depth left before (some (.error reason, after))
  | hangs {visits left : Nat} {before : σ}
      (hangs : body.RoundHangs accept visits before) (lt : 1 + visits < left) :
      LastRound body accept limit depth left before none

/-- Where the next round is the last one, it becomes something. -/
theorem exists_lastRound_or_round [Host σ V] (α : Type) (body : Graph σ V V ρ)
    (accept : V → Call σ Unit) (limit : UInt64) (left : Nat) (before : σ) :
    (∀ depth, ∃ answer : Option (Except Panic (Except RunError (Completed α)) × σ),
      body.LastRound accept limit depth left before answer) ∨
    ∃ value size between resumed, 1 + size.steps ≤ left ∧
      body.Finishes before value size between ∧
      accept value between = some (.ok (), resumed) := by
  rcases left with _ | visits
  · exact .inl fun depth => ⟨_, .spent before⟩
  rcases Machine.reaches_or_ends_or_hangs_within visits (Machine.start body) before with
    ⟨last, after, reaches⟩ | ⟨number, le, ending, between, ends⟩ | ⟨number, lt, hangs⟩
  · left
    intro depth
    rw [Nat.add_comm]
    exact ⟨_, .cut reaches reaches.peak_isGreatest⟩
  · rcases ending with reason | ⟨value, size⟩
    · exact .inl fun depth => ⟨_, .panics (.body ends) (by omega)⟩
    · rcases accepted : accept value between with _ | ⟨reason | ⟨⟩, resumed⟩
      · rcases ends.exists_last with ⟨fewer, _, _, rfl, _⟩
        exact .inl fun depth => ⟨_, .hangs (.value ends accepted) (by omega)⟩
      · exact .inl fun depth => ⟨_, .panics (.value ends accepted) (by omega)⟩
      · right
        have steps_eq : size.steps = number := ends.steps_eq.trans (Nat.zero_add _)
        have finishes : body.Finishes before value size between := ends.drive_eq
        exact ⟨value, size, between, resumed, by omega, finishes, accepted⟩
  · exact .inl fun depth => ⟨_, .hangs (.body hangs) (by omega)⟩

/-- However large a limit is, it is spent on whole rounds and one that is not completed. -/
theorem exists_lastRound [Host σ V] (α : Type) (body : Graph σ V V ρ) (accept : V → Call σ Unit)
    (limit : UInt64) (allowed : Nat) (before : σ) :
    ∃ sizes left between, body.Rounds accept sizes before between ∧
      allowed = roundVisits sizes + left ∧
      ∀ depth, ∃ answer : Option (Except Panic (Except RunError (Completed α)) × σ),
        body.LastRound accept limit depth left between answer := by
  induction allowed using Nat.strong_induction_on generalizing before with
  | _ allowed ih =>
    rcases exists_lastRound_or_round α body accept limit allowed before with
      lastRound | ⟨value, size, between, resumed, le, finishes, accepted⟩
    · exact ⟨[], allowed, before, .start before, (Nat.zero_add allowed).symm, lastRound⟩
    · rcases ih (allowed - (1 + size.steps)) (by omega) resumed with
        ⟨sizes, left, after, rounds, left_eq, lastRound⟩
      refine ⟨size :: sizes, left, after, .round finishes accepted rounds, ?_, lastRound⟩
      rw [roundVisits]
      omega

/-- Once the body does not finish, no further round begins. -/
theorem Rounds.length_le (rounds : body.Rounds accept sizes before between)
    (unfinished : ∀ value size after, ¬ body.Finishes between value size after)
    {more : List RunStats} (others : body.Rounds accept more before after) :
    more.length ≤ sizes.length := by
  induction rounds generalizing more with
  | start world =>
      cases others with
      | start => exact Nat.le_refl _
      | round finishes _ _ => exact absurd finishes (unfinished _ _ _)
  | round finishes accepted _ ih =>
      cases others with
      | start => exact Nat.zero_le _
      | round finishes' accepted' others =>
          rcases finishes.unique finishes' with ⟨rfl, rfl, rfl⟩
          rw [accepted] at accepted'
          cases accepted'
          exact Nat.succ_le_succ (ih unfinished others)

section Limited

variable [Host σ V] {limit : UInt64} {world : σ}
  (rounds : body.Rounds accept sizes (begun (some limit) world) between) {capacity : UInt64}
  (room : Machine.RoomFor capacity)

include rounds room

theorem Rounds.runWith_whole (limit_eq : limit.toNat = roundVisits sizes) :
    (Graph.cycle body accept).runWith ⟨some limit, capacity⟩ world =
      stoppedAt limit (roundDepth sizes) 0 between := by
  have reaches := rounds.reaches 0 0
  rw [← limit_eq, Nat.zero_max] at reaches
  have mark_eq : (Pending.empty.raise (roundDepth sizes) :
      Pending (Continuation σ V V ρ)).peak = roundDepth sizes := by
    simp [Pending.raise]
  rw [← mark_eq]
  exact runWith_of_reaches room reaches

theorem Rounds.runWith_cut {last : Machine σ V ρ}
    (reaches : Machine.Reaches visits (Machine.start body) between last after)
    (limit_eq : limit.toNat = roundVisits sizes + (1 + visits)) :
    (Graph.cycle body accept).runWith ⟨some limit, capacity⟩ world =
      stoppedAt limit (max (roundDepth sizes) (1 + last.pending.peak))
        (1 + last.pending.waiting.length) after := by
  rcases reaches_of_cut reaches accept (max 0 (roundDepth sizes)) (0 + roundVisits sizes) with
    ⟨cut, inside, waiting_eq, peak_eq⟩
  have reaches := (rounds.reaches 0 0).trans inside
  rw [← limit_eq] at reaches
  rw [← waiting_eq, ← Nat.zero_max (roundDepth sizes), ← peak_eq]
  exact runWith_of_reaches room reaches

theorem Rounds.runWith_panics {reason : Panic}
    (panics : body.RoundPanics accept visits between reason after)
    (le : roundVisits sizes + (1 + visits) ≤ limit.toNat) :
    (Graph.cycle body accept).runWith ⟨some limit, capacity⟩ world =
      some (.error reason, after) := by
  have ends := (rounds.reaches 0 0).ends (panics.ends _ _)
  exact runWith_of_panics room ends le

theorem Rounds.runWith_hangs (hangs : body.RoundHangs accept visits between)
    (lt : roundVisits sizes + (1 + visits) < limit.toNat) :
    (Graph.cycle body accept).runWith ⟨some limit, capacity⟩ world = none := by
  have hangs := (rounds.reaches 0 0).hangs (hangs.hangs _ _)
  exact runWith_of_hangs room hangs lt

end Limited

end Graph

/-- A value that is dropped must have the right type all the same. -/
theorem Tagged.expect_dropped {ι σ : Type} {Base : ι → Type} [DecidableEq ι] (complaint : String)
    (t : Ty ι) (value : Tagged Base) (world : σ) :
    (value.expect complaint t >>= fun _ => pure () : Call σ Unit) world =
      some (if value.type = t then .ok () else .error (.text complaint), world) := by
  rw [Tagged.expect, Tagged.as?]
  by_cases same : value.type = t
  · simp only [same, ↓reduceDIte, ↓reduceIte, pure_bind]
    rfl
  · simp only [same, ↓reduceDIte, ↓reduceIte]
    rfl

namespace Deferred

variable {ι σ ρ : Type} {Base : ι → Type} {t : Ty ι} [DecidableEq ι]

/-- A round of an endless computation takes a value of the right type and drops it. -/
def forget (t : Ty ι) (value : Tagged Base) : Call σ Unit := do
  let _ ← value.expect mismatch t

theorem forget_apply (t : Ty ι) (value : Tagged Base) (world : σ) :
    (forget t value : Call σ Unit) world =
      some (if value.type = t then .ok () else .error (.text mismatch), world) :=
  Tagged.expect_dropped mismatch t value world

variable [Definitions Base ρ σ]

/-- A round panics as its body does, unless the body yields a value of another type. -/
theorem roundPanics_forget {body : Graph σ (Tagged Base) (Tagged Base) ρ} {visits : Nat}
    {before after : σ} {reason : Panic}
    (panics : body.RoundPanics (forget t) visits before reason after) :
    Machine.Ends visits (Machine.start body) before (.error reason) after ∨
      ∃ value size, Machine.Ends visits (Machine.start body) before (.ok (value, size)) after ∧
        value.type ≠ t ∧ reason = .text mismatch := by
  cases panics with
  | body ends => exact .inl ends
  | @value _ _ value size _ ends refused =>
      rw [forget_apply] at refused
      by_cases same : value.type = t
      · simp [same] at refused
      · simp only [same, ↓reduceIte, Option.some.injEq, Prod.mk.injEq,
          Except.error.injEq] at refused
        rcases refused with ⟨rfl, rfl⟩
        exact .inr ⟨value, size, ends, same, rfl⟩

/-- A round hangs only where its body does. -/
theorem roundHangs_forget {body : Graph σ (Tagged Base) (Tagged Base) ρ} {visits : Nat}
    {before : σ} (hangs : body.RoundHangs (forget t) visits before) :
    (Machine.start body).Hangs visits before := by
  cases hangs with
  | body hangs => exact hangs
  | value ends hangs =>
      rw [forget_apply] at hangs
      cases hangs

variable [Host σ (Tagged Base)]

section RunWith

variable {computation : Deferred Base σ ρ t} {options : RunOptions} {world after : σ}

theorem runWith_of_error {error : RunError}
    (stopped : computation.graph.runWith options world = some (.ok (.error error), after)) :
    computation.runWith options world = some (.ok (.error error), after) :=
  Call.bind_of_ok stopped

theorem runWith_of_panic {reason : Panic}
    (panicked : computation.graph.runWith options world = some (.error reason, after)) :
    computation.runWith options world = some (.error reason, after) :=
  Call.bind_of_error panicked

theorem runWith_of_none (hangs : computation.graph.runWith options world = none) :
    computation.runWith options world = none :=
  Call.bind_of_none hangs

end RunWith

variable {body : Deferred Base σ ρ t} {limit : UInt64} {world : σ}

/-- The last round gives the answer of a limited run. -/
theorem runWith_of_lastRound {sizes : List RunStats} {left : Nat} {between : σ}
    {answer : Option (Except Panic (Except RunError (Completed (Ty.never.Value Base))) × σ)}
    (rounds : body.graph.Rounds (forget t) sizes (Graph.begun (some limit) world) between)
    (limit_eq : limit.toNat = roundVisits sizes + left)
    (lastRound : body.graph.LastRound (forget t) limit (roundDepth sizes) left between answer)
    {capacity : UInt64} (room : Machine.RoomFor capacity) :
    body.forever.runWith ⟨some limit, capacity⟩ world = answer := by
  cases lastRound with
  | spent => exact runWith_of_error (rounds.runWith_whole room limit_eq)
  | cut reaches greatest =>
      rw [greatest.unique reaches.peak_isGreatest]
      exact runWith_of_error (rounds.runWith_cut room reaches limit_eq)
  | panics panics le =>
      exact runWith_of_panic (rounds.runWith_panics room panics (by omega))
  | hangs hangs lt =>
      exact runWith_of_none (rounds.runWith_hangs room hangs (by omega))

/-- An endless computation runs its body again and again on a flat stack, and never completes. A
limit is spent on whole rounds of the body and one more that is cut, panics or hangs, as the body
does then unless it yields a value of another type. Where there is no room for the stack, it is not
run. -/
theorem forever_runWith (body : Deferred Base σ ρ t) (limit capacity : UInt64) (world : σ) :
    let before := Graph.begun (some limit) world
    let rounds := body.graph.Rounds (forget t)
    let answer := body.forever.runWith ⟨some limit, capacity⟩ world
    (∀ completed after, answer ≠ some (.ok (.ok completed), after)) ∧
    (Machine.RoomFor capacity → ∃ sizes left between, rounds sizes before between ∧
      limit.toNat = roundVisits sizes + left ∧
      body.graph.LastRound (forget t) limit (roundDepth sizes) left between answer) ∧
    (¬ Machine.RoomFor capacity → answer = some (.error (.text "capacity overflow"), world)) ∧
    (∀ visits between reason after, body.graph.RoundPanics (forget t) visits between reason after →
      Machine.Ends visits (Machine.start body.graph) between (.error reason) after ∨
        ∃ value size,
          Machine.Ends visits (Machine.start body.graph) between (.ok (value, size)) after ∧
          value.type ≠ t ∧ reason = .text mismatch) ∧
    (∀ visits between, body.graph.RoundHangs (forget t) visits between →
      (Machine.start body.graph).Hangs visits between) ∧
    (∀ sizes between, rounds sizes before between →
      ∃ head, Machine.Reaches (roundVisits sizes)
          (Machine.start body.forever.graph) before head between ∧
        head.current = body.forever.graph ∧ head.pending.waiting = [] ∧
        head.pending.peak = roundDepth sizes) ∧
    ∀ sizes between, rounds sizes before between →
      (∀ value size after, ¬ body.graph.Finishes between value size after) →
        ∀ more after, rounds more before after → more.length ≤ sizes.length := by
  intro before rounds answer
  rcases Graph.exists_lastRound (Ty.never.Value Base) body.graph (forget t) limit limit.toNat before
    with ⟨sizes, left, between, completed, limit_eq, lastRound⟩
  have ends (room : Machine.RoomFor capacity) :
      body.graph.LastRound (forget t) limit (roundDepth sizes) left between answer := by
    rcases lastRound (roundDepth sizes) with ⟨found, lastRound⟩
    have answer_eq : answer = found := runWith_of_lastRound completed limit_eq lastRound room
    exact answer_eq ▸ lastRound
  have refused (no_room : ¬ Machine.RoomFor capacity) :
      answer = some (.error (.text "capacity overflow"), world) :=
    runWith_of_panic (congrFun (Graph.runWith_of_no_room no_room _) world)
  refine ⟨?_, fun room => ⟨sizes, left, between, completed, limit_eq, ends room⟩, refused,
    ?_, ?_, ?_, ?_⟩
  · intro completed after completes
    by_cases room : Machine.RoomFor capacity
    · have lastRound := ends room
      rw [completes] at lastRound
      cases lastRound
    · rw [refused room] at completes
      cases completes
  · intro visits between reason after panics
    exact roundPanics_forget panics
  · intro visits between hangs
    exact roundHangs_forget hangs
  · intro sizes between completed
    refine ⟨_, completed.reaches 0 0, rfl, rfl, ?_⟩
    simp [Pending.raise]
  · intro sizes between completed unfinished more after others
    exact completed.length_le unfinished others

end Deferred

end Deferral

import Deferral.Proofs.Run.Accounting
import Deferral.Proofs.Run.Parts

/-!
# Every continuation is applied once

The continuation of a bind waits from the visit of the bind until the visit in which it is applied.
In all visits between it stays in its place of the stack, and only continuations above it come and
go. These are the visits that the predecessor of the bind makes when it runs on its own, and the
value that the continuation is applied to is the value of that run. So in a run that finishes every
visit of a bind is paired with one visit of a leaf, and every visit of a leaf but the last one with
one visit of a bind. Visits are counted from zero here.
-/

namespace Deferral

namespace Machine

variable {σ V ρ : Type} [Equations ρ σ V V]
variable {visits earlier later : Nat} {machine first last : Machine σ V ρ}
  {before started between after : σ} {predecessor : Graph σ V V ρ}
  {resume : Graph.Continuation σ V V ρ}

/-- The visit of a bind lets its continuation wait on top of what waits already, and there it stays
until a later visit begins. -/
structure LetsWait (machine : Machine σ V ρ) (before : σ) (earlier later : Nat)
    (first : Machine σ V ρ) (started : σ) (predecessor : Graph σ V V ρ)
    (resume : Graph.Continuation σ V V ρ) : Prop where
  reaches : Reaches earlier machine before first started
  shape_eq : first.current.shape = .bind predecessor resume
  less : earlier < later
  stays : ∀ number middle there, earlier < number → number ≤ later →
    Reaches number machine before middle there →
    resume :: first.pending.waiting <:+ middle.pending.waiting

/-- In a visit the continuation is taken off the stack that an earlier visit let wait, and is
applied to the value that the bind's predecessor has when it runs on its own. -/
inductive Applies (machine : Machine σ V ρ) (before : σ) (earlier later : Nat) : Prop
  | intro {first last : Machine σ V ρ} {started between applied after : σ}
      {predecessor next : Graph σ V V ρ} {resume : Graph.Continuation σ V V ρ}
      {produce : Call σ V} {value : V} {size : RunStats}
      (waits : LetsWait machine before earlier later first started predecessor resume)
      (reaches : Reaches later machine before last between)
      (waiting_eq : last.pending.waiting = resume :: first.pending.waiting)
      (shape_eq : last.current.shape = .leaf produce)
      (produced : produce between = some (.ok value, applied))
      (finishes : predecessor.Finishes started value size applied)
      (called : resume value applied = some (.ok next, after))

/-- When its continuation has been applied, what waited below a bind waits again. -/
theorem Applies.exists_next (applies : machine.Applies before earlier later) :
    ∃ first started predecessor resume next after,
      machine.LetsWait before earlier later first started predecessor resume ∧
      Reaches (later + 1) machine before next after ∧
      next.pending.waiting = first.pending.waiting := by
  rcases applies with ⟨waits, reaches, waiting_eq, shape_eq, produced, finishes, called⟩
  rename_i first last _ _ _ _ _ next resume _ _ _
  have popped : last.pending.pop? = some (resume,
      { last.pending with
        waiting := first.pending.waiting
        depth := last.pending.depth - 1 }) :=
    Pending.pop?_eq_some_iff.mpr ⟨waiting_eq, rfl, rfl⟩
  have moved := (visits_iff _ _ _ _).mpr (.resumes shape_eq produced popped called)
  exact ⟨_, _, _, _, _, _, waits, reaches.visit_last moved, rfl⟩

/-- A bind is visited in one way. -/
theorem LetsWait.unique {later' : Nat} {first' : Machine σ V ρ} {started' : σ}
    {predecessor' : Graph σ V V ρ} {resume' : Graph.Continuation σ V V ρ}
    (waits : machine.LetsWait before earlier later first started predecessor resume)
    (waits' : machine.LetsWait before earlier later' first' started' predecessor' resume') :
    first = first' ∧ resume = resume' := by
  rcases waits.reaches.unique waits'.reaches with ⟨rfl, rfl⟩
  have same := waits.shape_eq.symm.trans waits'.shape_eq
  cases same
  exact ⟨rfl, rfl⟩

/-- A continuation that has been applied does not wait any more. -/
theorem Applies.later_le {later' : Nat} (applies : machine.Applies before earlier later)
    (waits : machine.LetsWait before earlier later' first started predecessor resume) :
    later' ≤ later := by
  rcases applies.exists_next with ⟨first', _, _, _, next, there, waits', reaches, waiting_eq⟩
  rcases waits'.unique waits with ⟨rfl, rfl⟩
  refine Nat.not_lt.mp fun less => ?_
  have waits_on := waits.stays (later + 1) next there (Nat.lt_succ_of_lt waits'.less) less reaches
  have length_le := waits_on.length_le
  rw [waiting_eq, List.length_cons] at length_le
  omega

theorem Applies.unique_later {later' : Nat} (applies : machine.Applies before earlier later)
    (applies' : machine.Applies before earlier later') : later = later' := by
  rcases applies.exists_next with ⟨_, _, _, _, _, _, waits, _⟩
  rcases applies'.exists_next with ⟨_, _, _, _, _, _, waits', _⟩
  exact Nat.le_antisymm (applies'.later_le waits) (applies.later_le waits')

/-- Of two continuations that wait, the one that was pushed last is applied first. -/
theorem Applies.earlier_le {earlier' : Nat} (applies : machine.Applies before earlier later)
    (applies' : machine.Applies before earlier' later) : earlier' ≤ earlier := by
  rcases applies with ⟨waits, reaches, waiting_eq, _⟩
  rcases applies' with ⟨waits', reaches', waiting_eq', _⟩
  rcases reaches.unique reaches' with ⟨rfl, rfl⟩
  refine Nat.not_lt.mp fun less => ?_
  have waits_on := waits.stays _ _ _ less (Nat.le_of_lt waits'.less) waits'.reaches
  have length_le := waits_on.length_le
  have length_eq := congrArg List.length (waiting_eq.symm.trans waiting_eq')
  simp only [List.length_cons] at length_le length_eq
  omega

/-- Where a bind leads to a value, its predecessor does so on its own and its continuation answers:
otherwise the bind would panic or not end. -/
theorem Ends.exists_predecessor_ends {graph : Graph σ V V ρ}
    {pending : Pending (Graph.Continuation σ V V ρ)} {steps : Nat} {value : V} {stats : RunStats}
    (ends : Ends visits ⟨graph, pending, steps⟩ started (.ok (value, stats)) after)
    (shape_eq : graph.shape = .bind predecessor resume) :
    ∃ number fed size applied next resumed,
      Ends number (start predecessor) started (.ok (fed, size)) applied ∧
      resume fed applied = some (.ok next, resumed) := by
  have driven := ends.drive_eq
  rcases (start predecessor).ends_or_endless_or_hangs started with
    ⟨number, reason | ⟨fed, size⟩, applied, alone⟩ | endless | ⟨number, hangs⟩
  · have panics : Ends (1 + number) ⟨graph, pending, steps⟩ started (.error reason) applied :=
      ends_of_predecessor_panics shape_eq alone
    cases driven.symm.trans panics.drive_eq
  · rcases called : resume fed applied with _ | ⟨reason | next, resumed⟩
    · have hangs : Hangs number (⟨graph, pending, steps⟩ : Machine σ V ρ) started :=
        hangs_of_resume_hangs alone shape_eq called
      cases driven.symm.trans (drive_of_hangs hangs)
    · have panics : Ends (1 + number) ⟨graph, pending, steps⟩ started (.error reason) resumed :=
        ends_of_resume_panics alone shape_eq called
      cases driven.symm.trans panics.drive_eq
    · exact ⟨number, fed, size, applied, next, resumed, alone, called⟩
  · have endless : Endless (⟨graph, pending, steps⟩ : Machine σ V ρ) started :=
      endless_of_predecessor shape_eq endless
    cases driven.symm.trans (drive_of_endless endless)
  · have hangs : Hangs (1 + number) (⟨graph, pending, steps⟩ : Machine σ V ρ) started :=
      hangs_of_predecessor_hangs shape_eq hangs
    cases driven.symm.trans (drive_of_hangs hangs)

/-- In a run that finishes the continuation of every bind is applied. -/
theorem Ends.exists_applies {value : V} {stats : RunStats}
    (ends : Ends visits machine before (.ok (value, stats)) after)
    (reaches : Reaches earlier machine before first started)
    (shape_eq : first.current.shape = .bind predecessor resume) :
    ∃ later, machine.Applies before earlier later := by
  rcases first with ⟨graph, pending, steps⟩
  rcases ends.rest reaches with ⟨left, _, rest⟩
  rcases rest.exists_predecessor_ends shape_eq with
    ⟨number, fed, size, applied, next, resumed, alone, called⟩
  have finishes : predecessor.Finishes started fed size applied := alone.drive_eq
  rcases alone.exists_last with ⟨fewer, last, between, rfl, inside, finished⟩
  have ended := (visits_iff _ _ _ _).mp finished
  cases ended with
  | finishes last_shape produced popped =>
      have descends : Reaches 1 ⟨graph, pending, steps⟩ started
          ((start predecessor).above (pending.push resume) (steps + 1)) started :=
        reaches_predecessor shape_eq
      have entered := reaches.trans descends
      have last_reaches := entered.trans (inside.above Pending.sound_empty)
      refine ⟨earlier + 1 + fewer, .intro ⟨reaches, shape_eq, by omega, ?_⟩ last_reaches ?_
        last_shape produced finishes called⟩
      · intro number middle there greater le middle_reaches
        rcases Nat.exists_eq_add_of_lt greater with ⟨k, number_eq⟩
        have k_le : k ≤ fewer := by omega
        rcases inside.exists_of_le k_le with ⟨alone_middle, _, alone_reaches⟩
        have above_reaches := entered.trans (alone_reaches.above Pending.sound_empty)
        rw [show earlier + 1 + k = number by omega] at above_reaches
        rcases middle_reaches.unique above_reaches with ⟨rfl, rfl⟩
        exact List.suffix_append _ _
      · have waiting_eq := (Pending.pop?_eq_none_iff _).mp popped
        simp [above, Pending.above, waiting_eq]

/-- Whatever waits was let wait by a bind, and stayed in its place since. -/
theorem Reaches.exists_letsWait {graph : Graph σ V V ρ}
    (reaches : Reaches visits (Machine.start graph) before last after)
    {below : List (Graph.Continuation σ V V ρ)}
    (suffix : resume :: below <:+ last.pending.waiting) :
    ∃ earlier first started predecessor, first.pending.waiting = below ∧
      (Machine.start graph).LetsWait before earlier visits first started predecessor resume := by
  induction visits generalizing last after with
  | zero =>
      cases reaches
      simp [Machine.start] at suffix
  | succ visits ih =>
      rcases reaches.exists_last with ⟨middle, between, prior, moved⟩
      -- What waited before the last visit stays, whether the visit pushes or pops.
      have still (inside : resume :: below <:+ middle.pending.waiting) :
          ∃ earlier first started predecessor, first.pending.waiting = below ∧
            (Machine.start graph).LetsWait before earlier (visits + 1) first started
              predecessor resume := by
        rcases ih prior inside with ⟨earlier, first, started, predecessor, below_eq, waits⟩
        refine ⟨earlier, first, started, predecessor, below_eq, waits.reaches, waits.shape_eq,
          Nat.lt_succ_of_lt waits.less, ?_⟩
        intro number other there greater le other_reaches
        rcases Nat.lt_or_eq_of_le le with less | rfl
        · exact waits.stays number other there greater (Nat.le_of_lt_succ less) other_reaches
        · rcases reaches.unique other_reaches with ⟨rfl, rfl⟩
          rw [below_eq]
          exact suffix
      have visited := (visits_iff _ _ _ _).mp moved
      cases visited with
      | descends shape_eq =>
          rcases List.suffix_cons_iff.mp suffix with top | inside
          · cases top
            refine ⟨visits, middle, _, _, rfl, prior, shape_eq, Nat.lt_succ_self _, ?_⟩
            intro number other there greater le other_reaches
            obtain rfl : number = visits + 1 := by omega
            rcases reaches.unique other_reaches with ⟨rfl, rfl⟩
            exact List.suffix_rfl
          · exact still inside
      | resumes shape_eq produced popped resumed =>
          rcases Pending.pop?_eq_some_iff.mp popped with ⟨waiting_eq, _, _⟩
          rw [waiting_eq] at still
          exact still (suffix.trans (List.suffix_cons _ _))

/-- In a run that finishes every visit of a leaf but the last one applies what a bind let wait. -/
theorem Ends.exists_applied {graph : Graph σ V V ρ} {value : V} {stats : RunStats}
    {produce : Call σ V}
    (ends : Ends visits (Machine.start graph) before (.ok (value, stats)) after)
    (reaches : Reaches later (Machine.start graph) before last between)
    (less : later + 1 < visits) (shape_eq : last.current.shape = .leaf produce) :
    ∃ earlier, (Machine.start graph).Applies before earlier later := by
  rcases ends.exists_reaches less with ⟨next, there, next_reaches⟩
  rcases next_reaches.exists_last with ⟨middle, world, prior, moved⟩
  rcases reaches.unique prior with ⟨rfl, rfl⟩
  have visited := (visits_iff _ _ _ _).mp moved
  cases visited with
  | descends bind_eq => cases bind_eq.symm.trans shape_eq
  | resumes _ produced popped resumed =>
      rcases Pending.pop?_eq_some_iff.mp popped with ⟨waiting_eq, _, _⟩
      rcases reaches.exists_letsWait ⟨[], waiting_eq.symm⟩ with
        ⟨earlier, first, started, predecessor, below_eq, waits⟩
      rcases ends.exists_applies waits.reaches waits.shape_eq with ⟨later', applies⟩
      have le := applies.later_le waits
      rcases Nat.lt_or_eq_of_le le with greater | rfl
      · rcases applies.exists_next with ⟨first', _, _, _, _, _, waits', _⟩
        rcases waits.unique waits' with ⟨rfl, rfl⟩
        have stays := waits'.stays _ _ _ (Nat.lt_succ_of_lt waits.less) greater next_reaches
        have length_le := stays.length_le
        simp only [below_eq, List.length_cons] at length_le
        omega
      · exact ⟨earlier, applies⟩

end Machine

namespace Graph

variable {σ V ρ : Type} [Host σ V] [Equations ρ σ V V]

/-- The accounts of a run are right whenever a visit begins, and close when it finishes: it has then
visited one leaf more than binds, and the continuation of every bind was applied once, to the value
of the bind's predecessor, by the visit of a leaf. What a run reports is taken from these accounts,
under any options. -/
theorem accounts_balance (graph : Graph σ V V ρ) (capacity : UInt64) :
    let machine := Machine.start graph
    (∀ visits before last after, Machine.Reaches visits machine before last after →
      (machine.path visits before).length = visits ∧ machine.Balanced before visits last) ∧
    (∀ visits before value stats after,
      Machine.Ends visits machine before (.ok (value, stats)) after →
      let binds := (machine.path visits before).count .bind
      let leaves := (machine.path visits before).count .leaf
      leaves = binds + 1 ∧ visits = binds + leaves ∧ stats.steps = 2 * binds + 1 ∧
      stats.peakStackDepth ≤ binds ∧
      IsGreatest (Machine.depths (visits - 1) machine before) stats.peakStackDepth ∧
      (∀ earlier, (machine.path visits before)[earlier]? = some .bind →
        ∃! later, machine.Applies before earlier later) ∧
      ∀ later, later + 1 < visits → (machine.path visits before)[later]? = some .leaf →
        ∃! earlier, machine.Applies before earlier later) ∧
    (∀ limit world value stats last,
      graph.runWith ⟨limit, capacity⟩ world = some (.ok (.ok ⟨value, stats⟩), last) →
      ∃ after, Machine.Ends stats.steps machine (begun limit world) (.ok (value, stats)) after ∧
        last = Host.emit (.finished stats) after) ∧
    ∀ limit world error last,
      graph.runWith ⟨limit, capacity⟩ world = some (.ok (.error error), last) →
      ∃ allowed cut after, limit = some allowed ∧
        Machine.Reaches allowed.toNat machine (begun limit world) cut after ∧
        error = .stepLimitExceeded allowed ⟨allowed.toNat, cut.pending.peak⟩ ∧
        last = Host.emit (.limitReached ⟨allowed.toNat, cut.pending.peak⟩
          cut.pending.waiting.length) after ∧
        cut.pending.waiting.length % 2 = allowed.toNat % 2 ∧
        cut.pending.waiting.length ≤ cut.pending.peak ∧ cut.pending.peak ≤ allowed.toNat := by
  intro machine
  refine ⟨?_, ?_, ?_, ?_⟩
  · intro visits before last after reaches
    exact ⟨reaches.length_path, reaches.balanced⟩
  · intro visits before value stats after ends binds leaves
    have balanced : leaves = binds + 1 ∧ stats.steps = visits ∧ visits = 2 * binds + 1 ∧
        stats.peakStackDepth ≤ binds := ends.balanced
    rcases balanced with ⟨leaves_eq, steps_eq, visits_eq, peak_le⟩
    refine ⟨leaves_eq, by omega, by omega, peak_le, ?_, ?_, ?_⟩
    · rcases ends.exists_last with ⟨fewer, _, _, rfl, _⟩
      exact ends.peak_isGreatest
    · intro earlier found
      rcases ends.exists_visited found with ⟨first, started, reaches, kind_eq⟩
      rcases first.current.exists_shape_of_kind with
        ⟨_, leaf_eq, _⟩ | ⟨predecessor, resume, _, shape_eq⟩
      · cases leaf_eq.symm.trans kind_eq
      · rcases ends.exists_applies reaches shape_eq with ⟨later, applies⟩
        exact ⟨later, applies, fun other applies' => applies'.unique_later applies⟩
    · intro later less found
      rcases ends.exists_visited found with ⟨last, between, reaches, kind_eq⟩
      rcases last.current.exists_shape_of_kind with
        ⟨produce, _, shape_eq⟩ | ⟨_, _, bind_eq, _⟩
      · rcases ends.exists_applied reaches less shape_eq with ⟨earlier, applies⟩
        refine ⟨earlier, applies, fun other applies' => ?_⟩
        exact Nat.le_antisymm (applies.earlier_le applies') (applies'.earlier_le applies)
      · cases bind_eq.symm.trans kind_eq
  · intro limit world value stats last ran
    exact ends_of_runWith ran
  · intro limit world error last ran
    rcases reaches_of_runWith ran with ⟨allowed, cut, after, limit_eq, reaches, error_eq, last_eq⟩
    obtain rfl : limit = some allowed := limit_eq
    exact ⟨allowed, cut, after, rfl, reaches, error_eq, last_eq, reaches.pending_mod_two⟩

end Graph

end Deferral

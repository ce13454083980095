import Deferral.Proofs.Run.Depth
import Deferral.Proofs.Run.Reports

/-!
# Limited runs

A limited run makes the visits of the run without limit, one after the other, as long as the limit
allows. Both are told from the moment when the start has been reported, since the report itself
names the limit.

Room for the stack is taken before that, and how much makes no difference as long as it can be asked
for.
-/

namespace Deferral

namespace Graph

variable {σ V ρ : Type} [Host σ V] [Equations ρ σ V V]
variable {graph : Graph σ V V ρ} {limit capacity : UInt64} {world after : σ}

/-- A run that is stopped: it has made as many visits as it was allowed, in these visits its stack
was as deep as it says, and it leaves the world as the last of them did. -/
def Stopped (graph : Graph σ V V ρ) (limit capacity : UInt64) (world : σ) : Prop :=
  ∃ last between peak,
    Machine.Reaches limit.toNat (Machine.start graph) (begun (some limit) world) last between ∧
    IsGreatest (Machine.depths limit.toNat (Machine.start graph) (begun (some limit) world))
      peak ∧
    graph.runWith ⟨some limit, capacity⟩ world =
      some (.ok (.error (.stepLimitExceeded limit ⟨limit.toNat, peak⟩)),
        Host.emit (.limitReached ⟨limit.toNat, peak⟩ last.pending.waiting.length) between)

section Room

variable (room : Machine.RoomFor capacity)

include room

theorem runWith_of_reaches {last : Machine σ V ρ} {between : σ}
    (reaches : Machine.Reaches limit.toNat (Machine.start graph) (begun (some limit) world) last
      between) :
    graph.runWith ⟨some limit, capacity⟩ world =
      some (.ok (.error (.stepLimitExceeded limit ⟨limit.toNat, last.pending.peak⟩)),
        Host.emit (.limitReached ⟨limit.toNat, last.pending.peak⟩ last.pending.waiting.length)
          between) := by
  have counted : last.pending.depth = last.pending.waiting.length :=
    (reaches.sound Pending.sound_empty).counted
  have steps_eq : last.steps = limit.toNat := by
    rw [reaches.steps_eq]
    exact Nat.zero_add _
  have stats_eq : last.stats = ⟨limit.toNat, last.pending.peak⟩ := by
    rw [Machine.stats, steps_eq]
  have halted := Machine.driveWithin_of_reaches reaches
  rw [stats_eq, counted] at halted
  exact (runWithin_apply room graph limit world).trans (by rw [halted]; rfl)

theorem runWith_of_panics {visits : Nat} {reason : Panic}
    (ends : Machine.Ends visits (Machine.start graph) (begun (some limit) world) (.error reason)
      after)
    (le : visits ≤ limit.toNat) :
    graph.runWith ⟨some limit, capacity⟩ world = some (.error reason, after) := by
  have driven := Machine.driveWithin_of_ends ends le
  exact (runWithin_apply room graph limit world).trans (by rw [driven]; rfl)

theorem runWith_of_hangs {visits : Nat}
    (hangs : (Machine.start graph).Hangs visits (begun (some limit) world))
    (less : visits < limit.toNat) : graph.runWith ⟨some limit, capacity⟩ world = none := by
  have driven := Machine.driveWithin_of_hangs hangs less
  exact (runWithin_apply room graph limit world).trans (by rw [driven]; rfl)

theorem stopped_of_reaches {last : Machine σ V ρ} {between : σ}
    (reaches : Machine.Reaches limit.toNat (Machine.start graph) (begun (some limit) world) last
      between) :
    graph.Stopped limit capacity world :=
  ⟨last, between, last.pending.peak, reaches, reaches.peak_isGreatest,
    runWith_of_reaches room reaches⟩

theorem stopped_of_ends {visits : Nat} {ending : Except Panic (V × RunStats)}
    (ends : Machine.Ends visits (Machine.start graph) (begun (some limit) world) ending after)
    (less : limit.toNat < visits) : graph.Stopped limit capacity world := by
  rcases ends.exists_reaches less with ⟨last, between, reaches⟩
  exact stopped_of_reaches room reaches

theorem stopped_of_endless (endless : (Machine.start graph).Endless (begun (some limit) world)) :
    graph.Stopped limit capacity world := by
  rcases endless limit.toNat with ⟨last, between, reaches⟩
  exact stopped_of_reaches room reaches

end Room

/-- A limit cuts a run after just so many visits and changes nothing else, whatever room is taken
for the stack. Where so much room cannot be asked for, there is a panic before the limit is looked
at. -/
theorem runWith_limit (graph : Graph σ V V ρ) (limit capacity : UInt64) (world : σ) :
    let machine := Machine.start graph
    let before := begun (some limit) world
    let limited := graph.runWith ⟨some limit, capacity⟩ world
    (Machine.RoomFor capacity →
      (∀ visits value stats after, Machine.Ends visits machine before (.ok (value, stats)) after →
        machine.drive before = some (.ok (value, stats), after) ∧ stats.steps = visits ∧
        (visits ≤ limit.toNat →
          limited = some (.ok (.ok ⟨value, stats⟩), Host.emit (.finished stats) after)) ∧
        (limit.toNat < visits → graph.Stopped limit capacity world)) ∧
      (∀ visits reason after, Machine.Ends visits machine before (.error reason) after →
        machine.drive before = some (.error reason, after) ∧
        (visits ≤ limit.toNat → limited = some (.error reason, after)) ∧
        (limit.toNat < visits → graph.Stopped limit capacity world)) ∧
      (machine.Endless before →
        machine.drive before = none ∧ graph.Stopped limit capacity world) ∧
      (∀ visits, machine.Hangs visits before →
        machine.drive before = none ∧
        (visits < limit.toNat → limited = none) ∧
        (limit.toNat ≤ visits → graph.Stopped limit capacity world)) ∧
      (limit = 0 →
        limited = some (.ok (.error (.stepLimitExceeded 0 ⟨0, 0⟩)),
          Host.emit (.limitReached ⟨0, 0⟩ 0) before))) ∧
    (¬ Machine.RoomFor capacity →
      limited = some (.error (.text "capacity overflow"), world)) ∧
    ((∃ visits ending after, Machine.Ends visits machine before ending after) ∨
      machine.Endless before ∨ ∃ visits, machine.Hangs visits before) ∧
    ∀ visits ≤ limit.toNat, ∀ last after, Machine.Reaches visits machine before last after →
      last.steps = visits ∧ last.steps ≤ limit.toNat ∧ last.steps < UInt64.size := by
  intro machine before limited
  refine ⟨fun room => ⟨?_, ?_, ?_, ?_, ?_⟩, fun no_room => ?_,
    machine.ends_or_endless_or_hangs before, ?_⟩
  · intro visits value stats after ends
    refine ⟨ends.drive_eq, ?_, fun le => ?_, fun less => stopped_of_ends room ends less⟩
    · rw [ends.steps_eq]
      exact Nat.zero_add _
    · have limited_eq : limited = _ := runWithin_apply room graph limit world
      exact limited_eq.trans (by rw [Machine.driveWithin_of_ends ends le]; rfl)
  · intro visits reason after ends
    exact ⟨ends.drive_eq, runWith_of_panics room ends, stopped_of_ends room ends⟩
  · intro endless
    exact ⟨Machine.drive_of_endless endless, stopped_of_endless room endless⟩
  · intro visits hangs
    refine ⟨Machine.drive_of_hangs hangs, runWith_of_hangs room hangs, fun le => ?_⟩
    rcases hangs with ⟨last, after, reaches, _⟩
    rcases reaches.exists_of_le le with ⟨middle, between, reaches⟩
    exact stopped_of_reaches room reaches
  · rintro rfl
    exact runWithin_apply room graph 0 world
  · exact congrFun (runWith_of_no_room no_room graph) world
  · intro visits le last after reaches
    have steps_eq : last.steps = visits := by
      rw [reaches.steps_eq]
      exact Nat.zero_add _
    have small : limit.toNat < UInt64.size := limit.toNat_lt
    omega

/-- The run without limit finishes in its first visit, but with a limit of five visits and room for
`2 ^ 62` continuations there is a panic, and so there is with a limit of none. -/
theorem huge_capacity_precedes_limit :
    let graph : Graph (Session Unit Nat) Nat Nat Empty := .leaf (pure 1 : Call _ Nat)
    let before := begun (some 5) (.start ())
    Machine.Ends 1 (Machine.start graph) before (.ok (1, ⟨1, 0⟩)) before ∧
      graph.runWith ⟨some 5, 4611686018427387904⟩ (.start ()) =
        some (.error (.text "capacity overflow"), .start ()) ∧
      graph.runWith ⟨some 0, 4611686018427387904⟩ (.start ()) =
        some (.error (.text "capacity overflow"), .start ()) :=
  ⟨.finished rfl, rfl, rfl⟩

end Graph

end Deferral

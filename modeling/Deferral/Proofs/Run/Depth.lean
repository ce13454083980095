import Deferral.Proofs.Run.Visits
import Mathlib.Order.Bounds.Basic

/-!
# The depth of a run

The stack of a run keeps two numbers beside the continuations: how many wait, and the mark. Every
visit keeps both right, and raises the mark just when more continuations wait than ever before. So
the mark is the largest number of continuations that waited between two visits made so far.
-/

namespace Deferral

namespace Pending

variable {κ : Type} {pending rest : Pending κ}

/-- The numbers that are kept are right. -/
structure Sound (pending : Pending κ) : Prop where
  counted : pending.Counted
  length_le_peak : pending.waiting.length ≤ pending.peak

theorem sound_empty : (empty : Pending κ).Sound := ⟨counted_empty, by simp⟩

theorem Sound.peak_push (sound : pending.Sound) (continuation : κ) :
    (pending.push continuation).peak =
      max pending.peak (pending.push continuation).waiting.length := by
  have counted : pending.depth = pending.waiting.length := sound.counted
  simp [counted]

theorem Sound.push (sound : pending.Sound) (continuation : κ) :
    (pending.push continuation).Sound := by
  refine ⟨sound.counted.push continuation, ?_⟩
  rw [sound.peak_push]
  exact Nat.le_max_right _ _

theorem pop?_eq_some_iff {continuation : κ} :
    pending.pop? = some (continuation, rest) ↔
      pending.waiting = continuation :: rest.waiting ∧ rest.depth = pending.depth - 1 ∧
        rest.peak = pending.peak := by
  rcases pending with ⟨waiting, depth, peak⟩
  rcases rest with ⟨waiting', depth', peak'⟩
  rcases waiting with _ | ⟨first, waiting⟩
  · simp [Pending.pop?]
  · simp only [Pending.pop?, Option.some.injEq, Prod.mk.injEq, Pending.mk.injEq, List.cons.injEq]
    constructor
    · rintro ⟨rfl, rfl, rfl, rfl⟩
      exact ⟨⟨rfl, rfl⟩, rfl, rfl⟩
    · rintro ⟨⟨rfl, rfl⟩, rfl, rfl⟩
      exact ⟨rfl, rfl, rfl, rfl⟩

theorem Sound.pop? {continuation : κ} (sound : pending.Sound)
    (popped : pending.pop? = some (continuation, rest)) : rest.Sound := by
  refine ⟨sound.counted.pop? popped, ?_⟩
  rcases pop?_eq_some_iff.mp popped with ⟨waiting_eq, _, peak_eq⟩
  have le := sound.length_le_peak
  rw [waiting_eq, List.length_cons] at le
  omega

end Pending

namespace Machine

variable {σ V ρ : Type} [Equations ρ σ V V]
variable {visits : Nat} {machine next last : Machine σ V ρ} {before between after : σ}

/-- A visit keeps the numbers of the stack right, and raises the mark to what waits now. -/
theorem visit_sound (moved : machine.visit before = some (.ok (.moved next), between))
    (sound : machine.pending.Sound) :
    next.pending.Sound ∧
      next.pending.peak = max machine.pending.peak next.pending.waiting.length := by
  have visits := (visits_iff _ _ _ _).mp moved
  cases visits with
  | descends shape_eq => exact ⟨sound.push _, sound.peak_push _⟩
  | resumes shape_eq produced popped resumed =>
      have rest_sound := sound.pop? popped
      refine ⟨rest_sound, ?_⟩
      rcases Pending.pop?_eq_some_iff.mp popped with ⟨_, _, peak_eq⟩
      have le := rest_sound.length_le_peak
      simp only
      omega

theorem Reaches.sound (reaches : Reaches visits machine before last after)
    (sound : machine.pending.Sound) : last.pending.Sound := by
  induction reaches with
  | start => exact sound
  | visit moved _ ih => exact ih (visit_sound moved sound).1

/-- The numbers of continuations that wait before, between and after the first so many visits. -/
def depths (visits : Nat) (machine : Machine σ V ρ) (world : σ) : Set Nat :=
  {depth | ∃ fewer ≤ visits, ∃ middle between,
    Reaches fewer machine world middle between ∧ middle.pending.waiting.length = depth}

theorem length_mem_depths (visits : Nat) (machine : Machine σ V ρ) (world : σ) :
    machine.pending.waiting.length ∈ depths visits machine world :=
  ⟨0, Nat.zero_le _, machine, world, .start _ _, rfl⟩

theorem mem_depths_succ (moved : machine.visit before = some (.ok (.moved next), between))
    {depth : Nat} :
    depth ∈ depths (visits + 1) machine before ↔
      machine.pending.waiting.length = depth ∨ depth ∈ depths visits next between := by
  constructor
  · rintro ⟨_, le, middle, world, reaches, rfl⟩
    cases reaches with
    | start => exact .inl rfl
    | visit first rest =>
        rw [moved] at first
        cases first
        exact .inr ⟨_, Nat.le_of_succ_le_succ le, middle, world, rest, rfl⟩
  · rintro (rfl | ⟨fewer, le, middle, world, reaches, rfl⟩)
    · exact length_mem_depths _ _ _
    · exact ⟨fewer + 1, Nat.succ_le_succ le, middle, world, .visit moved reaches, rfl⟩

/-- The mark bounds what waited so far, and is where it was or is reached. -/
theorem Reaches.peak_spec (reaches : Reaches visits machine before last after)
    (sound : machine.pending.Sound) :
    machine.pending.peak ≤ last.pending.peak ∧
      (∀ depth ∈ depths visits machine before, depth ≤ last.pending.peak) ∧
      (last.pending.peak = machine.pending.peak ∨
        last.pending.peak ∈ depths visits machine before) := by
  induction reaches with
  | start machine world =>
      refine ⟨Nat.le_refl _, ?_, .inl rfl⟩
      rintro _ ⟨fewer, le, middle, _, reaches, rfl⟩
      obtain rfl : fewer = 0 := by omega
      cases reaches
      exact sound.length_le_peak
  | @visit visits machine next last before between after moved rest ih =>
      rcases visit_sound moved sound with ⟨next_sound, next_peak⟩
      rcases ih next_sound with ⟨peak_le, bounded, attained⟩
      refine ⟨by omega, ?_, ?_⟩
      · intro depth mem
        rcases (mem_depths_succ moved).mp mem with rfl | mem
        · have := sound.length_le_peak
          omega
        · exact bounded depth mem
      · rcases attained with last_peak | mem
        · rcases Nat.le_total next.pending.waiting.length machine.pending.peak with le | le
          · left
            omega
          · right
            refine (mem_depths_succ moved).mpr (.inr ?_)
            rw [last_peak, next_peak, Nat.max_eq_right le]
            exact length_mem_depths _ _ _
        · exact .inr ((mem_depths_succ moved).mpr (.inr mem))

/-- The mark of a run is the largest number of continuations that ever waited. -/
theorem Reaches.peak_isGreatest {graph : Graph σ V V ρ}
    (reaches : Reaches visits (Machine.start graph) before last after) :
    IsGreatest (depths visits (Machine.start graph) before) last.pending.peak := by
  rcases reaches.peak_spec Pending.sound_empty with ⟨_, bounded, attained⟩
  refine ⟨?_, bounded⟩
  rcases attained with peak_eq | mem
  · rw [peak_eq]
    exact length_mem_depths _ _ _
  · exact mem

end Machine

end Deferral

import Deferral.Future.Complete
import Deferral.Proofs.Time.Elapsed

/-!
# Completing a future takes it from stage to stage

Those who complete a future poll it until its value is there, and let the time pass between two
polls. Whether they wait for the value or give up at a deadline, what they do is a run that can be
followed from stage to stage.
-/

namespace Deferral

variable {σ V ρ : Type} [Host σ V]

namespace Wake.Passes

variable {wake other : Wake} {before after : σ}

theorem of_sleepUntil (passed : (Host.sleepUntil wake : Call σ Unit) before = some (.ok (), after))
    (allowance : Option Nat) : wake.Passes before (Host.beginTurn allowance after) := by
  cases wake with
  | soon =>
      cases passed
      exact .again .soon allowance before
  | «at» moment =>
      cases passed
      exact .waited (Nat.le_refl _) allowance before

/-- Who waits for the earlier of two moments does not wait past either of them. -/
theorem of_earlier (passes : (wake.earlier other).Passes before after) :
    wake.Passes before after := by
  cases wake with
  | soon => exact passes
  | «at» moment =>
      generalize earlier_eq : (Wake.at moment).earlier other = earlier at passes
      cases passes with
      | nothing => exact .nothing _ _
      | again => exact .again _ _ _
      | waited le =>
          cases other with
          | soon => cases earlier_eq
          | «at» =>
              cases earlier_eq
              exact .waited (Nat.le_trans le (Nat.min_le_left _ _)) _ _

end Wake.Passes

namespace Future

open Stage

variable [Equations ρ σ (Future σ V ρ) V] {future next last rest : Future σ V ρ}
  {before between after left : σ} {value : V} {wake : Wake}

theorem complete_of_ready
    (polled : future.poll (Host.beginTurn (some turnAllowance) before) =
      some (.ok (.ready value), after)) :
    future.complete before = some (.ok value, after) := by
  have turned : (Host.turn (some turnAllowance) : Call σ Unit) before = some (.ok (), _) := rfl
  rw [complete, Call.bind_of_ok turned, Call.bind_of_ok polled]
  rfl

theorem complete_of_pending
    (polled : future.poll (Host.beginTurn (some turnAllowance) before) =
      some (.ok (.pending wake rest), left))
    (passed : (Host.sleepUntil wake : Call σ Unit) left = some (.ok (), after)) :
    future.complete before = rest.complete after := by
  have turned : (Host.turn (some turnAllowance) : Call σ Unit) before = some (.ok (), _) := rfl
  rw [complete, Call.bind_of_ok turned, Call.bind_of_ok polled]
  exact Call.bind_of_ok passed

variable [Unital V]

/-- A run leads from one future to another, whatever it has slept before. -/
def Leads (future : Future σ V ρ) (before : σ) (last : Future σ V ρ) (after : σ) : Prop :=
  ∀ slept asleep, ∃ slept' asleep',
    Reaches ⟨future, before, slept, asleep⟩ ⟨last, after, slept', asleep'⟩

theorem Leads.trans (first : future.Leads before next between)
    (second : next.Leads between last after) :
    future.Leads before last after := by
  intro slept asleep
  rcases first slept asleep with ⟨slept, asleep, reaches⟩
  rcases second slept asleep with ⟨slept, asleep, reaches'⟩
  exact ⟨slept, asleep, reaches.trans reaches'⟩

theorem leads_of_went (unfinished : future.value? = none)
    (stepped : future.step before = some (.ok (.went next), after)) :
    future.Leads before next after := by
  intro slept asleep
  cases asleep with
  | some milliseconds => exact ⟨_, _, .single (.wakes stepped)⟩
  | none =>
      by_cases falls : ∃ milliseconds, future.FallsAsleep milliseconds
      · rcases falls with ⟨milliseconds, falls⟩
        exact ⟨_, _, .single (.sleeps falls stepped)⟩
      · exact ⟨_, _, .single (.works unfinished (not_exists.mp falls) stepped)⟩

theorem Goes.leads (goes : Goes future before last after) : future.Leads before last after := by
  induction goes with
  | start => exact fun slept asleep => ⟨slept, asleep, .refl⟩
  | step unfinished stepped _ ih => exact (leads_of_went unfinished stepped).trans ih

theorem leads_of_poll_ready (polled : future.poll before = some (.ok (.ready value), after)) :
    future.Leads before (.ready value) after := by
  rcases poll_eq_some_iff.mp polled with ⟨last, between, goes, stops⟩
  cases stops
  exact goes.leads

theorem leads_of_poll_pending (polled : future.poll before = some (.ok (.pending wake rest), left))
    (passes : wake.Passes left after) : future.Leads before rest after := by
  rcases poll_eq_some_iff.mp polled with ⟨last, between, goes, _ | stepped | _⟩
  exact goes.leads.trans fun slept asleep => ⟨slept, asleep, .single (.waits stepped passes)⟩

theorem leads_of_complete
    (completed : future.complete before = some (.ok value, after)) :
    future.Leads (Host.beginTurn (some turnAllowance) before) (.ready value) after := by
  refine complete.fixpoint_induct (fun complete => ∀ (future : Future σ V ρ) before answer,
      complete future before = some answer → ∀ value, answer.1 = .ok value →
        future.Leads (Host.beginTurn (some turnAllowance) before) (.ready value) answer.2)
    ?_ ?_ future before _ completed value rfl
  · exact fun _ _ => Call.answers_of_chain
      fun _ _ => ⟨fun order => by cases order <;> simp, by rintro (rfl | rfl) <;> constructor⟩
  · rintro complete ih future before ⟨_, after⟩ completed value rfl
    rcases Call.bind_eq_ok_iff.mp completed with ⟨_, turned, turn, completed⟩
    cases turn
    rcases Call.bind_eq_ok_iff.mp completed with ⟨value | ⟨wake, rest⟩, left, polled, completed⟩
    · cases completed
      exact leads_of_poll_ready polled
    · rcases Call.bind_eq_ok_iff.mp completed with ⟨_, passed, slept, completed⟩
      have passes := Wake.Passes.of_sleepUntil slept (some turnAllowance)
      exact (leads_of_poll_pending polled passes).trans (ih rest passed _ completed value rfl)

/-- The value of a future that is completed by a deadline, or the rest of it that is given up. -/
theorem leads_of_completeBy {deadline : Nat} {value? : Option V}
    (completed : future.completeBy deadline before = some (.ok value?, after)) :
    ∃ last, (∀ value, value? = some value → last = .ready value) ∧
      future.Leads (Host.beginTurn (some turnAllowance) before) last after := by
  refine completeBy.fixpoint_induct deadline
    (fun completeBy => ∀ (future : Future σ V ρ) before answer,
      completeBy future before = some answer → ∀ value?, answer.1 = .ok value? →
        ∃ last, (∀ value, value? = some value → last = .ready value) ∧
          future.Leads (Host.beginTurn (some turnAllowance) before) last answer.2)
    ?_ ?_ future before _ completed value? rfl
  · exact fun _ _ => Call.answers_of_chain
      fun _ _ => ⟨fun order => by cases order <;> simp, by rintro (rfl | rfl) <;> constructor⟩
  · rintro completeBy ih future before ⟨_, after⟩ completed value? rfl
    rcases Call.bind_eq_ok_iff.mp completed with ⟨_, turned, turn, completed⟩
    cases turn
    rcases Call.bind_eq_ok_iff.mp completed with ⟨value | ⟨wake, rest⟩, left, polled, completed⟩
    · cases completed
      refine ⟨.ready value, ?_, leads_of_poll_ready polled⟩
      rintro _ ⟨⟩
      rfl
    · rcases Call.bind_eq_ok_iff.mp completed with ⟨now, here, asked, completed⟩
      cases asked
      split at completed
      · cases completed
        exact ⟨rest, nofun, leads_of_poll_pending polled (.nothing wake _)⟩
      · rcases Call.bind_eq_ok_iff.mp completed with ⟨_, passed, slept, completed⟩
        have passes := Wake.Passes.of_sleepUntil slept (some turnAllowance)
        rcases ih rest passed _ completed value? rfl with ⟨last, last_eq, leads⟩
        exact ⟨last, last_eq, (leads_of_poll_pending polled passes.of_earlier).trans leads⟩

end Future

end Deferral

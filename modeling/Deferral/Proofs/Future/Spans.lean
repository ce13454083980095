import Deferral.Proofs.Future.Steps

/-!
# Steps through several polls

A future that is suspended is polled again later, and by then the world may be any other. What
happens between two polls is left open here: a break names the world that a poll left and the world
in which the next poll begins. `Future.Spans` tells the steps of all these polls as one sequence.
-/

namespace Deferral.Future

variable {σ V ρ : Type} [Host σ V] [Equations ρ σ (Future σ V ρ) V]

/-- Steps with breaks between them. -/
inductive Spans : List (σ × σ) → Future σ V ρ → σ → Future σ V ρ → σ → Prop
  | start (future : Future σ V ρ) (world : σ) : Spans [] future world future world
  | went {breaks : List (σ × σ)} {first last next : Future σ V ρ} {before between after : σ}
      (earlier : Spans breaks first before last between) (unfinished : last.value? = none)
      (stepped : last.step between = some (.ok (.went next), after)) :
      Spans breaks first before next after
  | resumed {breaks : List (σ × σ)} {first last rest : Future σ V ρ} {before between left : σ}
      {wake : Wake} (earlier : Spans breaks first before last between)
      (stepped : last.step between = some (.ok (.suspended wake rest), left)) (resumed : σ) :
      Spans (breaks ++ [(left, resumed)]) first before rest resumed

/-- Polls that all found the future unfinished, with the breaks between them. -/
inductive Resumes : List (σ × σ) → Future σ V ρ → σ → Future σ V ρ → σ → Prop
  | start (future : Future σ V ρ) (world : σ) : Resumes [] future world future world
  | poll {breaks : List (σ × σ)} {first last rest : Future σ V ρ} {before between left : σ}
      {wake : Wake} (earlier : Resumes breaks first before last between)
      (polled : last.poll between = some (.ok (.pending wake rest), left)) (resumed : σ) :
      Resumes (breaks ++ [(left, resumed)]) first before rest resumed

variable {breaks more : List (σ × σ)} {first last next : Future σ V ρ} {before between after : σ}

namespace Spans

theorem trans (spans : Spans breaks first before last between)
    (rest : Spans more last between next after) :
    Spans (breaks ++ more) first before next after := by
  induction rest with
  | start => simpa using spans
  | went _ unfinished stepped ih => exact .went (ih spans) unfinished stepped
  | resumed _ stepped resumed ih =>
      rw [← List.append_assoc]
      exact .resumed (ih spans) stepped resumed

theorem goes (spans : Spans breaks first before last between)
    (goes : Goes last between next after) :
    Spans breaks first before next after := by
  induction goes with
  | start => exact spans
  | step unfinished stepped _ ih => exact ih (.went spans unfinished stepped)

end Spans

theorem Resumes.spans (resumes : Resumes breaks first before last after) :
    Spans breaks first before last after := by
  induction resumes with
  | start future world => exact .start future world
  | poll _ polled resumed ih =>
      rcases poll_eq_some_iff.mp polled with ⟨stuck, here, goes, stops⟩
      rcases stops with _ | stepped | _
      exact .resumed (ih.goes goes) stepped resumed

/-- Steps with the same breaks are made after the same polls. -/
theorem Resumes.goes {future : Future σ V ρ} (resumes : Resumes breaks first before future between)
    (spans : Spans breaks first before last after) : Goes future between last after := by
  induction spans generalizing future between with
  | start =>
      generalize none_eq : ([] : List (σ × σ)) = breaks at resumes
      cases resumes with
      | start => exact .start _ _
      | poll => simp at none_eq
  | went _ unfinished stepped ih => exact (ih resumes).step_last unfinished stepped
  | @resumed breaks _ _ _ _ _ left _ _ stepped resumed ih =>
      generalize breaks_eq : breaks ++ [(left, resumed)] = all at resumes
      cases resumes with
      | start => simp at breaks_eq
      | poll earlier polled =>
          rcases List.append_inj' breaks_eq rfl with ⟨rfl, last_eq⟩
          cases last_eq
          have goes := ih earlier
          rw [goes.poll_eq, (Stops.suspended stepped).poll_eq] at polled
          cases polled
          exact .start _ _

theorem exists_resumes (spans : Spans breaks first before last after) :
    ∃ rest between, Resumes breaks first before rest between ∧ Goes rest between last after := by
  induction spans with
  | start future world => exact ⟨future, world, .start _ _, .start _ _⟩
  | went _ unfinished stepped ih =>
      rcases ih with ⟨rest, between, resumes, goes⟩
      exact ⟨rest, between, resumes, goes.step_last unfinished stepped⟩
  | resumed _ stepped resumed ih =>
      rcases ih with ⟨rest, between, resumes, goes⟩
      have polled := goes.poll_eq.trans (Stops.suspended stepped).poll_eq
      exact ⟨_, resumed, resumes.poll polled resumed, .start _ _⟩

/-- What the poll after these breaks comes to. -/
def PollsTo (breaks : List (σ × σ)) (future : Future σ V ρ) (before : σ)
    (answer : Option (Except Panic (Poll V (Future σ V ρ)) × σ)) : Prop :=
  ∃ rest between, Resumes breaks future before rest between ∧ rest.poll between = answer

@[simp]
theorem pollsTo_nil_iff {answer : Option (Except Panic (Poll V (Future σ V ρ)) × σ)} :
    PollsTo [] first before answer ↔ first.poll before = answer := by
  constructor
  · rintro ⟨rest, between, resumes, rfl⟩
    exact (resumes.goes (.start first before)).poll_eq.symm
  · intro polled
    exact ⟨first, before, .start _ _, polled⟩

theorem PollsTo.unique {answer other : Option (Except Panic (Poll V (Future σ V ρ)) × σ)}
    (polls : PollsTo breaks first before answer) (others : PollsTo breaks first before other) :
    answer = other := by
  rcases polls with ⟨rest, between, resumes, rfl⟩
  rcases others with ⟨rest', between', resumes', rfl⟩
  exact (resumes.goes resumes'.spans).poll_eq

theorem pollsTo_iff {answer : Option (Except Panic (Poll V (Future σ V ρ)) × σ)} :
    PollsTo breaks first before answer ↔
      ∃ last between, Spans breaks first before last between ∧ last.poll between = answer := by
  constructor
  · rintro ⟨rest, between, resumes, polled⟩
    exact ⟨rest, between, resumes.spans, polled⟩
  · rintro ⟨last, here, spans, polled⟩
    rcases exists_resumes spans with ⟨rest, between, resumes, goes⟩
    exact ⟨rest, between, resumes, goes.poll_eq.trans polled⟩

theorem pollsTo_some_iff {ending : Except Panic (Poll V (Future σ V ρ))} :
    PollsTo breaks first before (some (ending, after)) ↔
      ∃ last between, Spans breaks first before last between ∧ last.Stops between ending after := by
  constructor
  · rintro ⟨rest, between, resumes, polled⟩
    rcases poll_eq_some_iff.mp polled with ⟨last, here, goes, stops⟩
    exact ⟨last, here, resumes.spans.goes goes, stops⟩
  · rintro ⟨last, between, spans, stops⟩
    exact pollsTo_iff.mpr ⟨last, between, spans, stops.poll_eq⟩

theorem pollsTo_ready_iff {value : V} :
    PollsTo breaks first before (some (.ok (.ready value), after)) ↔
      Spans breaks first before (.ready value) after := by
  rw [pollsTo_some_iff]
  constructor
  · rintro ⟨last, between, spans, stops⟩
    cases stops
    exact spans
  · intro spans
    exact ⟨_, after, spans, .ready value after⟩

theorem pollsTo_pending_iff {wake : Wake} {rest : Future σ V ρ} :
    PollsTo breaks first before (some (.ok (.pending wake rest), after)) ↔
      ∃ last between, Spans breaks first before last between ∧
        last.step between = some (.ok (.suspended wake rest), after) := by
  rw [pollsTo_some_iff]
  constructor
  · rintro ⟨last, between, spans, _ | stepped | _⟩
    exact ⟨last, between, spans, stepped⟩
  · rintro ⟨last, between, spans, stepped⟩
    exact ⟨last, between, spans, .suspended stepped⟩

theorem pollsTo_error_iff {reason : Panic} :
    PollsTo breaks first before (some (.error reason, after)) ↔
      ∃ last between, Spans breaks first before last between ∧
        last.step between = some (.error reason, after) := by
  rw [pollsTo_some_iff]
  constructor
  · rintro ⟨last, between, spans, _ | _ | stepped⟩
    exact ⟨last, between, spans, stepped⟩
  · rintro ⟨last, between, spans, stepped⟩
    exact ⟨last, between, spans, .panicked stepped⟩

end Deferral.Future

import Deferral.Proofs.Call
import Deferral.Proofs.Validation.Pairwise
import Deferral.Proofs.Validation.Schedule

/-!
# The calls of a validation

A validation returns just when the calls that are scheduled for its operands return one right after
the other, with what the schedule says. When it does not return, then because the call that the
schedule has next does not.
-/

namespace Deferral

namespace Call

variable {σ α β : Type}

/-- The answer of a call without a value: a panic with the world it leaves, or none at all. -/
def stop (halt : Option (Panic × σ)) : Option (Except Panic α × σ) :=
  halt.map fun (reason, world) => (.error reason, world)

@[simp]
theorem ok_ne_stop (value : α) (after : σ) (halt : Option (Panic × σ)) :
    some (.ok value, after) ≠ stop halt := by
  rcases halt with _ | ⟨reason, world⟩ <;> simp [stop]

theorem bind_eq_stop_iff {call : Call σ α} {next : α → Call σ β} {before : σ}
    {halt : Option (Panic × σ)} :
    (call >>= next) before = stop halt ↔
      call before = stop halt ∨
        ∃ value between, call before = some (.ok value, between) ∧
          next value between = stop halt := by
  rw [bind_apply]
  rcases call before with _ | ⟨_ | value, between⟩ <;>
    rcases halt with _ | ⟨reason, world⟩ <;> simp [stop, and_assoc]

theorem map_eq_stop_iff {call : Call σ α} {function : α → β} {before : σ}
    {halt : Option (Panic × σ)} :
    (function <$> call) before = stop halt ↔ call before = stop halt := by
  rw [map_eq_pure_bind, bind_eq_stop_iff]
  simp

/-- The call returns in every world. -/
def Returns (call : Call σ α) : Prop :=
  ∀ before, ∃ value after, call before = some (.ok value, after)

theorem Returns.pure (value : α) : Returns (Pure.pure value : Call σ α) := by
  intro before
  exact ⟨value, before, rfl⟩

theorem Returns.bind {call : Call σ α} {next : α → Call σ β} (returns : call.Returns)
    (nexts : ∀ value, (next value).Returns) : (call >>= next).Returns := by
  intro before
  rcases returns before with ⟨value, between, called⟩
  rcases nexts value between with ⟨result, after, returned⟩
  exact ⟨result, after, bind_eq_ok_iff.mpr ⟨value, between, called, returned⟩⟩

end Call

namespace Outcome

variable {σ ε α : Type}

namespace Made

/-- The call is made in a world, comes to this and leaves another world. -/
def Happens (combine : ε → ε → Call σ ε) (pulls : List (Call σ (Outcome ε α))) :
    Made ε α → σ → σ → Prop
  | .pulled index outcome, before, after =>
    ∃ pull, pulls[index]? = some pull ∧ pull before = some (.ok outcome, after)
  | .combined first second result, before, after =>
    combine first second before = some (.ok result, after)

end Made

/-- The calls happen one right after the other. -/
inductive InTurn (combine : ε → ε → Call σ ε) (pulls : List (Call σ (Outcome ε α))) :
    List (Made ε α) → σ → σ → Prop
  | done (world : σ) : InTurn combine pulls [] world world
  | call {made : Made ε α} {mades : List (Made ε α)} {before between after : σ}
      (happens : made.Happens combine pulls before between)
      (rest : InTurn combine pulls mades between after) :
      InTurn combine pulls (made :: mades) before after

/-- The call that is next does not return: the operand with a number is not obtained, or its reason
is not combined with what there is. -/
inductive Interrupted (combine : ε → ε → Call σ ε) (pulls : List (Call σ (Outcome ε α)))
    (index : Nat) :
    Outcome ε (List α) → σ → Option (Panic × σ) → Prop
  | pull {pull : Call σ (Outcome ε α)} {sofar : Outcome ε (List α)} {before : σ}
      {halt : Option (Panic × σ)} (pull_eq : pulls[index]? = some pull)
      (stopped : pull before = Call.stop halt) : Interrupted combine pulls index sofar before halt
  | combine {pull : Call σ (Outcome ε α)} {previous reason : ε} {before between : σ}
      {halt : Option (Panic × σ)} (pull_eq : pulls[index]? = some pull)
      (pulled : pull before = some (.ok (.failure reason), between))
      (stopped : combine previous reason between = Call.stop halt) :
      Interrupted combine pulls index (.failure previous) before halt

section Runs

variable {combine : ε → ε → Call σ ε} {pulls : List (Call σ (Outcome ε α))}
  {pull : Call σ (Outcome ε α)} {sofar next result : Outcome ε (List α)} {index : Nat}
  {before after : σ} {halt : Option (Panic × σ)}

theorem inTurn_append_iff {first second : List (Made ε α)} :
    InTurn combine pulls (first ++ second) before after ↔
      ∃ between, InTurn combine pulls first before between ∧
        InTurn combine pulls second between after := by
  induction first generalizing before with
  | nil =>
      constructor
      · intro second_happens
        exact ⟨before, .done before, second_happens⟩
      · rintro ⟨_, ⟨⟩, second_happens⟩
        exact second_happens
  | cons made first ih =>
      constructor
      · rintro (_ | ⟨happens, rest⟩)
        rcases ih.mp rest with ⟨between, first_happens, second_happens⟩
        exact ⟨between, .call happens first_happens, second_happens⟩
      · rintro ⟨between, _ | ⟨happens, first_happens⟩, second_happens⟩
        exact .call happens (ih.mpr ⟨between, first_happens, second_happens⟩)

theorem add_eq_ok_iff (pull_eq : pulls[index]? = some pull) :
    (pull >>= sofar.zipAppend combine) before = some (.ok next, after) ↔
      ∃ outcome made, Adds index sofar outcome made next ∧
        InTurn combine pulls made before after := by
  rw [Call.bind_eq_ok_iff]
  constructor
  · rintro ⟨outcome, between, pulled, added⟩
    have happens : (Made.pulled index outcome).Happens combine pulls before between :=
      ⟨pull, pull_eq, pulled⟩
    cases sofar with
    | success values =>
        cases outcome with
        | success value =>
            rw [zipAppend_success_success] at added
            cases added
            exact ⟨_, _, .keeps values value, .call happens (.done _)⟩
        | failure reason =>
            rw [zipAppend_success_failure] at added
            cases added
            exact ⟨_, _, .fails values reason, .call happens (.done _)⟩
    | failure previous =>
        cases outcome with
        | success value =>
            rw [zipAppend_failure_success] at added
            cases added
            exact ⟨_, _, .ignores previous value, .call happens (.done _)⟩
        | failure reason =>
            simp only [zipAppend_failure_failure] at added
            rcases Call.map_eq_ok_iff.mp added with ⟨combined, called, rfl⟩
            exact ⟨_, _, .combines previous reason combined, .call happens (.call called (.done _))⟩
  · rintro ⟨outcome, made, adds, happen⟩
    cases adds with
    | keeps values value | ignores previous value | fails values reason =>
        rcases happen with _ | ⟨⟨other, other_eq, pulled⟩, ⟨⟩⟩
        rw [pull_eq] at other_eq
        cases other_eq
        exact ⟨_, _, pulled, by simp⟩
    | combines previous reason combined =>
        rcases happen with _ | ⟨⟨other, other_eq, pulled⟩, _ | ⟨called, ⟨⟩⟩⟩
        rw [pull_eq] at other_eq
        cases other_eq
        refine ⟨_, _, pulled, ?_⟩
        rw [zipAppend_failure_failure]
        exact Call.map_eq_ok_iff.mpr ⟨combined, called, rfl⟩

theorem add_eq_stop_iff (pull_eq : pulls[index]? = some pull) :
    (pull >>= sofar.zipAppend combine) before = Call.stop halt ↔
      Interrupted combine pulls index sofar before halt := by
  rw [Call.bind_eq_stop_iff]
  constructor
  · rintro (stopped | ⟨outcome, between, pulled, stopped⟩)
    · exact .pull pull_eq stopped
    · cases sofar with
      | success values =>
          cases outcome with
          | success value | failure reason => simp at stopped
      | failure previous =>
          cases outcome with
          | success value => simp at stopped
          | failure reason =>
              rw [zipAppend_failure_failure, Call.map_eq_stop_iff] at stopped
              exact .combine pull_eq pulled stopped
  · rintro (⟨other_eq, stopped⟩ | ⟨other_eq, pulled, stopped⟩)
    · rw [pull_eq] at other_eq
      cases other_eq
      exact .inl stopped
    · rw [pull_eq] at other_eq
      cases other_eq
      refine .inr ⟨_, _, pulled, ?_⟩
      rw [zipAppend_failure_failure, Call.map_eq_stop_iff]
      exact stopped

/-- The operands from a number on are validated by the calls that there are for them. -/
theorem addEach_eq_ok_iff (taken rest : List (Call σ (Outcome ε α))) :
    rest.foldlM (fun sofar pull => pull >>= sofar.zipAppend combine) sofar before =
        some (.ok result, after) ↔
      ∃ outcomes made, outcomes.length = rest.length ∧
        Schedule taken.length sofar outcomes made result ∧
        InTurn combine (taken ++ rest) made before after := by
  -- Each operand moves from `rest` to the end of `taken`, so that its number stays its place in the
  -- whole sequence.
  induction rest generalizing taken sofar before with
  | nil =>
      simp only [List.foldlM_nil, Call.pure_apply, Option.some.injEq, Prod.mk.injEq,
        Except.ok.injEq, List.length_nil, List.length_eq_zero_iff]
      constructor
      · rintro ⟨rfl, rfl⟩
        exact ⟨[], [], rfl, .done _ _, .done _⟩
      · rintro ⟨_, made, rfl, ⟨⟩, ⟨⟩⟩
        exact ⟨rfl, rfl⟩
  | cons pull rest ih =>
      have pull_eq : (taken ++ pull :: rest)[taken.length]? = some pull := by simp
      have split_eq : taken ++ pull :: rest = (taken ++ [pull]) ++ rest := by simp
      rw [List.foldlM_cons, Call.bind_eq_ok_iff]
      constructor
      · rintro ⟨next, between, added, validated⟩
        rcases (add_eq_ok_iff pull_eq).mp added with ⟨outcome, made, adds, happen⟩
        rcases (ih (taken ++ [pull])).mp validated with
          ⟨outcomes, mades, length_eq, schedule, later⟩
        rw [← split_eq] at later
        refine ⟨outcome :: outcomes, made ++ mades, by simp [length_eq], .operand adds ?_, ?_⟩
        · simpa using schedule
        · exact inTurn_append_iff.mpr ⟨between, happen, later⟩
      · rintro ⟨_, _, length_eq, _ | ⟨adds, schedule⟩, happen⟩
        · simp at length_eq
        · rcases inTurn_append_iff.mp happen with ⟨between, first, later⟩
          refine ⟨_, between, (add_eq_ok_iff pull_eq).mpr ⟨_, _, adds, first⟩, ?_⟩
          apply (ih (taken ++ [pull])).mpr
          refine ⟨_, _, by simpa using length_eq, by simpa using schedule, ?_⟩
          rwa [← split_eq]

theorem addEach_eq_stop_iff (taken rest : List (Call σ (Outcome ε α))) :
    rest.foldlM (fun sofar pull => pull >>= sofar.zipAppend combine) sofar before = Call.stop halt ↔
      ∃ outcomes made reached between, Schedule taken.length sofar outcomes made reached ∧
        InTurn combine (taken ++ rest) made before between ∧
        Interrupted combine (taken ++ rest)
          (taken.length + outcomes.length) reached between halt := by
  induction rest generalizing taken sofar before with
  | nil =>
      constructor
      · intro stopped
        simp at stopped
      · rintro ⟨outcomes, made, reached, between, _, _, interrupted⟩
        have absent : (taken ++ [])[taken.length + outcomes.length]? = none := by simp
        cases interrupted with
        | pull pull_eq | combine pull_eq =>
            rw [absent] at pull_eq
            cases pull_eq
  | cons pull rest ih =>
      have pull_eq : (taken ++ pull :: rest)[taken.length]? = some pull := by simp
      have split_eq : taken ++ pull :: rest = (taken ++ [pull]) ++ rest := by simp
      rw [List.foldlM_cons, Call.bind_eq_stop_iff, add_eq_stop_iff pull_eq]
      constructor
      · rintro (interrupted | ⟨next, between, added, stopped⟩)
        · exact ⟨[], [], sofar, before, .done _ _, .done _, interrupted⟩
        · rcases (add_eq_ok_iff pull_eq).mp added with ⟨outcome, made, adds, happen⟩
          rcases (ih (taken ++ [pull])).mp stopped with
            ⟨outcomes, mades, reached, here, schedule, later, interrupted⟩
          rw [← split_eq] at later interrupted
          refine ⟨outcome :: outcomes, made ++ mades, reached, here, .operand adds ?_, ?_, ?_⟩
          · simpa using schedule
          · exact inTurn_append_iff.mpr ⟨between, happen, later⟩
          · simpa [Nat.add_assoc, Nat.add_comm 1] using interrupted
      · rintro ⟨_, _, reached, here, _ | ⟨adds, schedule⟩, happen, interrupted⟩
        · cases happen
          exact .inl interrupted
        · rcases inTurn_append_iff.mp happen with ⟨between, first, later⟩
          refine .inr ⟨_, between, (add_eq_ok_iff pull_eq).mpr ⟨_, _, adds, first⟩, ?_⟩
          apply (ih (taken ++ [pull])).mpr
          refine ⟨_, _, reached, here, by simpa using schedule, ?_, ?_⟩
          · rwa [← split_eq]
          · rw [← split_eq]
            simpa [Nat.add_assoc, Nat.add_comm 1] using interrupted

end Runs

section Validated

variable (combine : ε → ε → Call σ ε)

theorem zipAppend_returns (combines : ∀ first second, (combine first second).Returns)
    (sofar : Outcome ε (List α)) (outcome : Outcome ε α) :
    (sofar.zipAppend combine outcome).Returns := by
  cases sofar with
  | success values =>
      cases outcome with
      | success value | failure reason =>
          simp only [zipAppend_success_success, zipAppend_success_failure]
          exact Call.Returns.pure _
  | failure previous =>
      cases outcome with
      | success value =>
          rw [zipAppend_failure_success]
          exact Call.Returns.pure _
      | failure reason =>
          rw [zipAppend_failure_failure, map_eq_pure_bind]
          apply Call.Returns.bind (combines previous reason)
          intro combined
          exact Call.Returns.pure _

theorem addEach_returns (combines : ∀ first second, (combine first second).Returns)
    (pulls : List (Call σ (Outcome ε α))) (returns : ∀ pull ∈ pulls, pull.Returns)
    (sofar : Outcome ε (List α)) :
    (pulls.foldlM (fun sofar pull => pull >>= sofar.zipAppend combine) sofar).Returns := by
  induction pulls generalizing sofar with
  | nil => exact Call.Returns.pure sofar
  | cons pull pulls ih =>
      rw [List.forall_mem_cons] at returns
      rw [List.foldlM_cons]
      apply Call.Returns.bind
      · apply Call.Returns.bind returns.1
        intro outcome
        exact zipAppend_returns combine combines sofar outcome
      · intro next
        exact ih returns.2 next

end Validated

end Outcome
end Deferral

import Deferral.Proofs.Lockstep.Graph
import Deferral.Proofs.Run.Reports
import Deferral.Proofs.Run.Visits

/-!
# Runs in lockstep

Machines that are in lockstep stay so from visit to visit, so their runs end in the same visit, with
the same value and statistics or the same panic, or neither ends. Hence all the ways to run two
graphs in lockstep are alike.
-/

namespace Deferral

variable {ω V ρ ρ' : Type} [Equations ρ (Session ω V) V V] [Equations ρ' (Session ω V) V V]

/-- Two machines that are at the same point of runs in lockstep. -/
structure MachinesAlike (raised : Panic → Prop)
    (related : Graph (Session ω V) V V ρ → Graph (Session ω V) V V ρ' → Prop)
    (machine : Machine (Session ω V) V ρ) (before : Session ω V)
    (machine' : Machine (Session ω V) V ρ') (before' : Session ω V) : Prop where
  current : Next related machine.current before machine'.current before'
  pending : PendingAlike (ContinuationsAlike raised related) machine.pending machine'.pending
  steps_eq : machine.steps = machine'.steps

/-- Visits that lead on to machines in lockstep, or that both end a run in the same way. -/
inductive VisitedAlike (raised : Panic → Prop)
    (related : Graph (Session ω V) V V ρ → Graph (Session ω V) V V ρ' → Prop) :
    Visited (Session ω V) V ρ → Session ω V → Visited (Session ω V) V ρ' → Session ω V → Prop
  | moved {machine : Machine (Session ω V) V ρ} {machine' : Machine (Session ω V) V ρ'}
      {after after' : Session ω V}
      (machines : MachinesAlike raised related machine after machine' after') :
      VisitedAlike raised related (.moved machine) after (.moved machine') after'
  | finished {value : V} {stats : RunStats} {after after' : Session ω V}
      (same : after.Same after') :
      VisitedAlike raised related (.finished value stats) after (.finished value stats) after'

namespace MachinesAlike

variable {raised : Panic → Prop}
  {related : Graph (Session ω V) V V ρ → Graph (Session ω V) V V ρ' → Prop}
  {machine : Machine (Session ω V) V ρ} {machine' : Machine (Session ω V) V ρ'}
  {before before' : Session ω V}

theorem symm (machines : MachinesAlike raised related machine before machine' before') :
    MachinesAlike raised (flip related) machine' before' machine before := by
  refine ⟨machines.current.symm, ?_, machines.steps_eq.symm⟩
  have pending := machines.pending.symm
  refine ⟨pending.waiting.imp fun _ _ continuations => ?_, pending.depth_eq, pending.peak_eq⟩
  exact ContinuationsAlike.symm continuations

theorem start (graph : Graph (Session ω V) V V ρ) (graph' : Graph (Session ω V) V V ρ')
    (rel : related graph graph') (same : before.Same before') :
    MachinesAlike raised related (.start graph) before (.start graph') before' :=
  ⟨⟨same, .inl rel⟩, .empty, rfl⟩

/-- One visit keeps machines in lockstep. -/
theorem visit (lockstep : Lockstep raised Eq related)
    (machines : MachinesAlike raised related machine before machine' before') :
    AnswersAlike raised (VisitedAlike raised related) (machine.visit before)
      (machine'.visit before') := by
  cases lockstep.nodes (fun _ => rfl) machines.current with
  | leaf shape_eq shape_eq' answers =>
      rw [Machine.visit_of_leaf shape_eq, Machine.visit_of_leaf shape_eq']
      refine answers.bind ?_
      rintro value after _ after' ⟨rfl, same⟩
      rw [← machines.steps_eq, ← machines.pending.peak_eq]
      rcases machines.pending.pop? with ⟨popped, popped'⟩ |
        ⟨resume, rest, resume', rest', popped, popped', continuations, pendings⟩
      · rw [popped, popped']
        exact .returned (.finished same)
      · rw [popped, popped']
        refine (continuations value same).bind fun next last next' last' nexts => ?_
        exact .returned (.moved ⟨nexts, pendings, rfl⟩)
  | bind shape_eq shape_eq' predecessors continuations same =>
      rw [Machine.visit_of_bind shape_eq, Machine.visit_of_bind shape_eq', ← machines.steps_eq]
      exact .returned (.moved ⟨⟨same, .inl predecessors⟩, machines.pending.push continuations, rfl⟩)

theorem driveWithin (lockstep : Lockstep raised Eq related) (allowed : Nat)
    (machines : MachinesAlike raised related machine before machine' before') :
    AnswersAlike raised (Alongside Eq) (machine.driveWithin allowed before)
      (machine'.driveWithin allowed before') := by
  induction allowed generalizing machine machine' before before' with
  | zero =>
      refine .returned ⟨?_, machines.current.1⟩
      rw [Machine.stats, Machine.stats, machines.steps_eq, machines.pending.peak_eq,
        machines.pending.depth_eq]
  | succ allowed ih =>
      refine (machines.visit lockstep).bind ?_
      intro visited after visited' after' alike
      cases alike with
      | moved machines => exact ih machines
      | finished same => exact .returned ⟨rfl, same⟩

/-- An unlimited run that ends has its like in lockstep. -/
theorem drive_matched (lockstep : Lockstep raised Eq related)
    (machines : MachinesAlike raised related machine before machine' before') :
    Matched raised (Alongside Eq) (machine.drive before) (machine'.drive before') := by
  intro answer driven
  refine Machine.drive.fixpoint_induct (fun drive => ∀ machine before answer,
    drive machine before = some answer →
      ∀ machine' before', MachinesAlike raised related machine before machine' before' →
        AnswersAlike raised (Alongside Eq) (some answer) (machine'.drive before'))
    ?_ ?_ machine before answer driven machine' before' machines
  · exact fun _ _ => Call.answers_of_chain
      fun _ _ => ⟨fun order => by cases order <;> simp, by rintro (rfl | rfl) <;> constructor⟩
  · intro drive ih machine before answer driven machine' before' machines
    rw [Machine.drive]
    refine Matched.bind (.of_alike (machines.visit lockstep)) ?_ answer driven
    intro visited after visited' after' alike answer driven
    cases alike with
    | moved machines => exact ih _ _ _ driven _ _ machines
    | finished same =>
        cases driven
        exact .returned ⟨rfl, same⟩

/-- Runs in lockstep end alike, or neither ends. -/
theorem drive (lockstep : Lockstep raised Eq related)
    (machines : MachinesAlike raised related machine before machine' before') :
    AnswersAlike raised (Alongside Eq) (machine.drive before) (machine'.drive before') := by
  have flipped : Lockstep raised Eq (flip related) :=
    lockstep.symm.mono fun _ _ same => Eq.symm same
  refine .of_matched (machines.drive_matched lockstep) fun answer driven => ?_
  refine (machines.symm.drive_matched flipped answer driven).mono ?_
  exact fun _ _ _ _ values => ⟨values.1.symm, values.2.symm⟩

end MachinesAlike

namespace Lockstep

variable {raised : Panic → Prop}
  {related : Graph (Session ω V) V V ρ → Graph (Session ω V) V V ρ' → Prop}
  {graph : Graph (Session ω V) V V ρ} {graph' : Graph (Session ω V) V V ρ'}

section Options

variable (lockstep : Lockstep raised Eq related)
  (overflow_raised : raised (.text "capacity overflow")) (rel : related graph graph')

include lockstep overflow_raised rel

theorem runToEnd (options : RunOptions) :
    Call.Alike raised Eq (graph.runToEnd options) (graph'.runToEnd options) := by
  rw [Graph.runToEnd_eq, Graph.runToEnd_eq]
  refine (Call.Alike.reserve overflow_raised _ _).bind fun _ _ _ => ?_
  refine (Call.Alike.report _).bind fun _ _ _ => ?_
  refine Call.Alike.bind (?_ : Call.Alike raised Eq _ _) ?_
  · exact fun before before' same => (MachinesAlike.start _ _ rel same).drive lockstep
  · rintro ⟨value, stats⟩ _ rfl
    exact (Call.Alike.report _).bind fun _ _ _ => .pure rfl

theorem runWithin (limit : UInt64) (options : RunOptions) :
    Call.Alike raised Eq (graph.runWithin limit options) (graph'.runWithin limit options) := by
  rw [Graph.runWithin_eq, Graph.runWithin_eq]
  refine (Call.Alike.reserve overflow_raised _ _).bind fun _ _ _ => ?_
  refine (Call.Alike.report _).bind fun _ _ _ => ?_
  refine Call.Alike.bind (?_ : Call.Alike raised Eq _ _) ?_
  · exact fun before before' same => (MachinesAlike.start _ _ rel same).driveWithin lockstep _
  · rintro halt _ rfl
    exact (Call.Alike.report _).bind fun _ _ _ => .pure rfl

theorem runWith (options : RunOptions) :
    Call.Alike raised Eq (graph.runWith options) (graph'.runWith options) := by
  unfold Graph.runWith
  cases options.stepLimit with
  | none =>
      refine (lockstep.runToEnd overflow_raised rel options).bind fun _ _ same => ?_
      exact .pure (same ▸ rfl)
  | some limit => exact lockstep.runWithin overflow_raised rel limit options

end Options

theorem run (lockstep : Lockstep raised Eq related) (rel : related graph graph') :
    Call.Alike raised Eq graph.run graph'.run := by
  rw [Graph.run_eq, Graph.run_eq]
  refine (Call.Alike.report _).bind fun _ _ _ => ?_
  refine Call.Alike.bind (?_ : Call.Alike raised Eq _ _) ?_
  · exact fun before before' same => (MachinesAlike.start _ _ rel same).drive lockstep
  · rintro ⟨value, stats⟩ _ rfl
    exact (Call.Alike.report _).bind fun _ _ _ => .pure rfl

end Lockstep

theorem Call.Alike.capture {α : Type} {raised : Panic → Prop}
    {call call' : Call (Session ω V) α} (calls : Call.Alike raised Eq call call') :
    Call.Alike raised Eq (Host.capture call) (Host.capture call') := by
  refine calls.attempt.bind ?_
  intro ending ending' endings
  cases endings with
  | panicked _ => exact (Call.Alike.report _).bind fun _ _ _ => .pure rfl
  | returned values =>
    cases values
    exact .pure rfl

end Deferral

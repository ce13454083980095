import Deferral.Graph.Map
import Deferral.Proofs.Lockstep.Alike
import Deferral.Run.Pending
import Mathlib.Data.List.Forall2

/-!
# Graphs in lockstep

Two families of graphs are in lockstep when related graphs have the same kind of node, with leaves
that are alike, related predecessors, and continuations that are alike and lead to related graphs
again. A continuation may also lead to two leaves that are not related, if both yield the same value
right there and then. So it is with a leaf that takes what was just left for it and one that has the
value itself: they agree in the world in which the first of them was made, and in no later one.
-/

namespace Deferral

variable {ω V L L' ρ ρ' κ κ' : Type}

section

variable [Immediate V L] [Immediate V L'] [Equations ρ (Session ω V) L V]
  [Equations ρ' (Session ω V) L' V]

/-- Two leaves that yield the same value when they are visited now. -/
def YieldSame (graph : Graph (Session ω V) L V ρ) (before : Session ω V)
    (graph' : Graph (Session ω V) L' V ρ') (before' : Session ω V) : Prop :=
  ∃ (produce : Call (Session ω V) L) (produce' : Call (Session ω V) L') (value : V)
    (after after' : Session ω V),
    graph.shape = .leaf produce ∧ graph'.shape = .leaf produce' ∧
    produce before = some (.ok (Immediate.ready value), after) ∧
    produce' before' = some (.ok (Immediate.ready value), after') ∧ after.Same after'

/-- Two graphs that a run may visit next, each in its world. -/
def Next (related : Graph (Session ω V) L V ρ → Graph (Session ω V) L' V ρ' → Prop)
    (graph : Graph (Session ω V) L V ρ) (before : Session ω V)
    (graph' : Graph (Session ω V) L' V ρ') (before' : Session ω V) : Prop :=
  before.Same before' ∧ (related graph graph' ∨ YieldSame graph before graph' before')

/-- Two continuations that do the same and lead to graphs that may be visited next. -/
def ContinuationsAlike (raised : Panic → Prop)
    (related : Graph (Session ω V) L V ρ → Graph (Session ω V) L' V ρ' → Prop)
    (resume : Graph.Continuation (Session ω V) L V ρ)
    (resume' : Graph.Continuation (Session ω V) L' V ρ') : Prop :=
  ∀ (value : V) ⦃before before' : Session ω V⦄, before.Same before' →
    AnswersAlike raised (Next related) (resume value before) (resume' value before')

/-- Two nodes of the same kind with the same parts. -/
inductive ShapesAlike (raised : Panic → Prop) (product : L → L' → Prop)
    (related : Graph (Session ω V) L V ρ → Graph (Session ω V) L' V ρ' → Prop) :
    Shape (Session ω V) L V (Graph (Session ω V) L V ρ) →
      Shape (Session ω V) L' V (Graph (Session ω V) L' V ρ') → Prop
  | leaf {produce : Call (Session ω V) L} {produce' : Call (Session ω V) L'}
      (produces : produce.Alike raised product produce') :
      ShapesAlike raised product related (.leaf produce) (.leaf produce')
  | bind {predecessor : Graph (Session ω V) L V ρ} {predecessor' : Graph (Session ω V) L' V ρ'}
      {resume : Graph.Continuation (Session ω V) L V ρ}
      {resume' : Graph.Continuation (Session ω V) L' V ρ'}
      (predecessors : related predecessor predecessor')
      (continuations : ContinuationsAlike raised related resume resume') :
      ShapesAlike raised product related (.bind predecessor resume) (.bind predecessor' resume')

/-- Related graphs have nodes that are alike, all the way down. -/
def Lockstep (raised : Panic → Prop) (product : L → L' → Prop)
    (related : Graph (Session ω V) L V ρ → Graph (Session ω V) L' V ρ' → Prop) : Prop :=
  ∀ ⦃graph graph'⦄, related graph graph' →
    ShapesAlike raised product related graph.shape graph'.shape

/-- What two graphs that may be visited next are when they are visited. -/
inductive NodesAlike (raised : Panic → Prop) (product : L → L' → Prop)
    (related : Graph (Session ω V) L V ρ → Graph (Session ω V) L' V ρ' → Prop)
    (graph : Graph (Session ω V) L V ρ) (before : Session ω V)
    (graph' : Graph (Session ω V) L' V ρ') (before' : Session ω V) : Prop
  | leaf {produce : Call (Session ω V) L} {produce' : Call (Session ω V) L'}
      (shape_eq : graph.shape = .leaf produce) (shape_eq' : graph'.shape = .leaf produce')
      (answers : AnswersAlike raised (Alongside product) (produce before) (produce' before')) :
      NodesAlike raised product related graph before graph' before'
  | bind {predecessor : Graph (Session ω V) L V ρ} {predecessor' : Graph (Session ω V) L' V ρ'}
      {resume : Graph.Continuation (Session ω V) L V ρ}
      {resume' : Graph.Continuation (Session ω V) L' V ρ'}
      (shape_eq : graph.shape = .bind predecessor resume)
      (shape_eq' : graph'.shape = .bind predecessor' resume')
      (predecessors : related predecessor predecessor')
      (continuations : ContinuationsAlike raised related resume resume')
      (same : before.Same before') :
      NodesAlike raised product related graph before graph' before'

variable {raised : Panic → Prop} {product : L → L' → Prop}
  {related : Graph (Session ω V) L V ρ → Graph (Session ω V) L' V ρ' → Prop}
  {graph : Graph (Session ω V) L V ρ} {graph' : Graph (Session ω V) L' V ρ'}
  {before before' : Session ω V}

theorem YieldSame.symm (yields : YieldSame graph before graph' before') :
    YieldSame graph' before' graph before := by
  rcases yields with ⟨_, _, _, _, _, shape_eq, shape_eq', produced, produced', same⟩
  exact ⟨_, _, _, _, _, shape_eq', shape_eq, produced', produced, same.symm⟩

theorem Next.symm (next : Next related graph before graph' before') :
    Next (flip related) graph' before' graph before := by
  rcases next with ⟨same, rel | yields⟩
  · exact ⟨same.symm, .inl rel⟩
  · exact ⟨same.symm, .inr yields.symm⟩

theorem ContinuationsAlike.symm {resume : Graph.Continuation (Session ω V) L V ρ}
    {resume' : Graph.Continuation (Session ω V) L' V ρ'}
    (continuations : ContinuationsAlike raised related resume resume') :
    ContinuationsAlike raised (flip related) resume' resume := fun value _ _ same =>
  (continuations value same.symm).symm.mono fun _ _ _ _ next => next.symm

theorem Lockstep.symm (lockstep : Lockstep raised product related) :
    Lockstep raised (flip product) (flip related) := by
  intro graph' graph rel
  have shapes := lockstep rel
  generalize graph.shape = shape at shapes
  generalize graph'.shape = shape' at shapes
  cases shapes with
  | leaf produces => exact .leaf produces.symm
  | bind predecessors continuations => exact .bind predecessors continuations.symm

theorem Lockstep.mono {weaker : L → L' → Prop} (lockstep : Lockstep raised product related)
    (weaken : ∀ leaf leaf', product leaf leaf' → weaker leaf leaf') :
    Lockstep raised weaker related := by
  intro graph graph' rel
  have shapes := lockstep rel
  generalize graph.shape = shape at shapes
  generalize graph'.shape = shape' at shapes
  cases shapes with
  | leaf produces => exact .leaf (produces.mono weaken)
  | bind predecessors continuations => exact .bind predecessors continuations

/-- Whichever way two graphs came to be visited next, their nodes are alike now. -/
theorem Lockstep.nodes (lockstep : Lockstep raised product related)
    (ready : ∀ value : V, product (Immediate.ready value) (Immediate.ready value))
    (next : Next related graph before graph' before') :
    NodesAlike raised product related graph before graph' before' := by
  obtain ⟨same, rel |
    ⟨_, _, value, _, _, shape_eq, shape_eq', produced, produced', after_same⟩⟩ := next
  · have shapes := lockstep rel
    generalize shape_eq : graph.shape = shape at shapes
    generalize shape_eq' : graph'.shape = shape' at shapes
    cases shapes with
    | leaf produces => exact .leaf shape_eq shape_eq' (produces same)
    | bind predecessors continuations =>
      exact .bind shape_eq shape_eq' predecessors continuations same
  · refine .leaf shape_eq shape_eq' ?_
    rw [produced, produced']
    exact .returned ⟨ready value, after_same⟩

end

section Pending

variable {pending rest : Pending κ} {pending' : Pending κ'} {related : κ → κ' → Prop}

/-- Stacks with the same measures, whose continuations are related one by one. -/
structure PendingAlike (related : κ → κ' → Prop) (pending : Pending κ) (pending' : Pending κ') :
    Prop where
  waiting : List.Forall₂ related pending.waiting pending'.waiting
  depth_eq : pending.depth = pending'.depth
  peak_eq : pending.peak = pending'.peak

namespace PendingAlike

theorem empty : PendingAlike related Pending.empty Pending.empty := ⟨.nil, rfl, rfl⟩

theorem symm (pendings : PendingAlike related pending pending') :
    PendingAlike (flip related) pending' pending :=
  ⟨pendings.waiting.flip, pendings.depth_eq.symm, pendings.peak_eq.symm⟩

theorem push (pendings : PendingAlike related pending pending') {continuation : κ}
    {continuation' : κ'} (continuations : related continuation continuation') :
    PendingAlike related (pending.push continuation) (pending'.push continuation') := by
  refine ⟨.cons continuations pendings.waiting, ?_, ?_⟩
  · rw [Pending.depth_push, Pending.depth_push, pendings.depth_eq]
  · rw [Pending.peak_push, Pending.peak_push, pendings.depth_eq, pendings.peak_eq]

/-- Both stacks are empty, or both have a continuation to apply next. -/
theorem pop? (pendings : PendingAlike related pending pending') :
    (pending.pop? = none ∧ pending'.pop? = none) ∨
      ∃ continuation rest continuation' rest',
        pending.pop? = some (continuation, rest) ∧ pending'.pop? = some (continuation', rest') ∧
        related continuation continuation' ∧ PendingAlike related rest rest' := by
  rcases pending with ⟨waiting, depth, peak⟩
  rcases pending' with ⟨waiting', depth', peak'⟩
  rcases pendings with ⟨waiting_alike, rfl, rfl⟩
  cases waiting_alike with
  | nil => exact .inl ⟨rfl, rfl⟩
  | cons continuations rest => exact .inr ⟨_, _, _, _, rfl, rfl, continuations, ⟨rest, rfl, rfl⟩⟩

end PendingAlike

end Pending

end Deferral

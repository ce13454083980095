import Deferral.Future.AsyncGraph
import Deferral.Proofs.Future.Exhaust

/-!
# Asynchronous graphs without waiting

An asynchronous graph is made synchronous leaf by leaf: `AsyncGraph.atOnce` keeps its shape and
replaces every leaf by one that polls the future it makes until that is done, within a single visit.
Leaves that never wait stay what they are, and so do the combinators.
-/

namespace Deferral

namespace Graph

variable {σ L L' V ρ ρ' : Type}

mutual

/-- The graph of the same shape with other leaves and other names. -/
def relabel (leaf : Call σ L → Call σ L') (rename : ρ → ρ') : Graph σ L V ρ → Graph σ L' V ρ'
  | .leaf produce => .leaf (leaf produce)
  | .bind predecessor resume =>
    .bind (relabel leaf rename predecessor) fun value world =>
      relabelAnswer leaf rename (resume value world)
  | .cycle body accept => .cycle (relabel leaf rename body) accept
  | .named name => .named (rename name)

/-- The answer of a continuation with the graph in it relabelled. -/
def relabelAnswer (leaf : Call σ L → Call σ L') (rename : ρ → ρ') :
    Option (Except Panic (Graph σ L V ρ) × σ) → Option (Except Panic (Graph σ L' V ρ') × σ)
  | none => none
  | some answer => some (relabelPair leaf rename answer)

/-- The answer of a continuation that returns or panics, with the graph in it relabelled. -/
def relabelPair (leaf : Call σ L → Call σ L') (rename : ρ → ρ') :
    Except Panic (Graph σ L V ρ) × σ → Except Panic (Graph σ L' V ρ') × σ
  | (ending, world) => (relabelEnding leaf rename ending, world)

/-- The graph that a continuation returns, relabelled. -/
def relabelEnding (leaf : Call σ L → Call σ L') (rename : ρ → ρ') :
    Except Panic (Graph σ L V ρ) → Except Panic (Graph σ L' V ρ')
  | .ok graph => .ok (relabel leaf rename graph)
  | .error reason => .error reason

end

theorem relabel_bind (leaf : Call σ L → Call σ L') (rename : ρ → ρ')
    (predecessor : Graph σ L V ρ) (resume : Continuation σ L V ρ) :
    relabel leaf rename (.bind predecessor resume) =
      .bind (relabel leaf rename predecessor) fun value =>
        (relabel leaf rename <$> resume value : Call σ (Graph σ L' V ρ')) := by
  rw [relabel, Graph.bind.injEq]
  refine ⟨rfl, ?_⟩
  funext value world
  rw [Call.map_apply]
  rcases resume value world with _ | ⟨_ | next, after⟩ <;> rfl

end Graph

/-- The name of the graph that is made synchronous from the one with this name. -/
structure AtOnce (ρ : Type) where
  name : ρ

section AtOnce

variable {σ V ρ : Type} [Host σ V] [Equations ρ σ (Future σ V ρ) V]

/-- Make a future and poll it to the end. -/
def Future.wholeWork (produce : Call σ (Future σ V ρ)) : Call σ V := do
  let future ← produce
  let (value, _) ← future.exhaust
  return value

/-- The synchronous graph of the same shape, whose leaves do the whole work of their futures. -/
def Graph.atOnce (graph : AsyncGraph σ V ρ) : Graph σ V V (AtOnce ρ) :=
  graph.relabel Future.wholeWork AtOnce.mk

/-- A continuation that goes on with graphs whose leaves are awaited at once. -/
def Graph.Continuation.atOnce (resume : Continuation σ (Future σ V ρ) V ρ) :
    Continuation σ V V (AtOnce ρ) :=
  fun value => Graph.atOnce <$> resume value

/-- A node whose leaf is awaited at once. -/
def Shape.atOnce :
    Shape σ (Future σ V ρ) V (AsyncGraph σ V ρ) → Shape σ V V (Graph σ V V (AtOnce ρ))
  | .leaf produce => .leaf (Future.wholeWork produce)
  | .bind predecessor resume => .bind predecessor.atOnce (Graph.Continuation.atOnce resume)

instance : Equations (AtOnce ρ) σ V V where
  node name := (Equations.node name.name : Shape σ _ V (AsyncGraph σ V ρ)).atOnce

namespace Graph

theorem shape_atOnce (graph : AsyncGraph σ V ρ) : graph.atOnce.shape = graph.shape.atOnce := by
  cases graph with
  | leaf produce => rfl
  | bind predecessor resume =>
      rw [atOnce, relabel_bind]
      rfl
  | cycle body accept =>
      simp only [atOnce, relabel, shape, Shape.atOnce]
      rw [Shape.bind.injEq]
      refine ⟨rfl, ?_⟩
      funext value
      show _ = Graph.atOnce <$> (accept value >>= fun _ => pure (cycle body accept) : Call σ _)
      rw [map_bind]
      rfl
  | named name => rfl

@[simp]
theorem atOnce_fromThunk (produce : Call σ V) :
    (fromThunk produce : AsyncGraph σ V ρ).atOnce = fromThunk produce := by
  show Graph.leaf (Future.wholeWork (Future.ready <$> produce)) = Graph.leaf (id <$> produce)
  simp only [Future.wholeWork, bind_map_left, Future.exhaust_ready, pure_bind, bind_pure, id_map]

@[simp]
theorem atOnce_of (value : V) : (of value : AsyncGraph σ V ρ).atOnce = of value :=
  atOnce_fromThunk (pure value)

@[simp]
theorem atOnce_fromGraph {ρ' : Type} [Equations ρ' σ V V] (graph : Graph σ V V ρ') :
    (AsyncGraph.fromGraph graph : AsyncGraph σ V ρ).atOnce = fromThunk graph.run :=
  atOnce_fromThunk graph.run

/-- A leaf that makes a future does the whole work of this future. -/
@[simp]
theorem atOnce_fromAsync (action : Call σ (Future σ V ρ)) :
    (AsyncGraph.fromAsync action).atOnce = fromThunk (Future.wholeWork action) := by
  show Graph.leaf _ = Graph.leaf (id <$> Future.wholeWork action)
  rw [id_map]

@[simp]
theorem atOnce_flatMap (graph : AsyncGraph σ V ρ)
    (function : Continuation σ (Future σ V ρ) V ρ) :
    (graph.flatMap function).atOnce =
      graph.atOnce.flatMap (Continuation.atOnce function) :=
  relabel_bind _ _ _ _

@[simp]
theorem atOnce_andThen (first second : AsyncGraph σ V ρ) :
    (first.andThen second).atOnce = first.atOnce.andThen second.atOnce := by
  simp only [andThen, atOnce_flatMap]
  rfl

@[simp]
theorem atOnce_map (graph : AsyncGraph σ V ρ) (function : V → Call σ V) :
    (graph.map function).atOnce = graph.atOnce.map function := by
  simp only [map, atOnce_flatMap]
  congr 1
  funext value
  show Graph.atOnce <$> (function value >>= leaveOnce : Call σ (AsyncGraph σ V ρ)) = _
  simp only [map_bind, leaveOnce, once, map_pure, atOnce_fromThunk]

end Graph

end AtOnce

end Deferral

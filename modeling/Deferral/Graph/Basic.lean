import Deferral.Call

/-!
# Graphs of deferred computations

A graph describes a computation without performing it. It has two shapes: a leaf, which produces
something when it is visited, and a bind, which runs a predecessor and hands its value to a
continuation that answers with the graph to go on with. Everything else is built from these two.

The parameter `L` is what a leaf produces and `V` is what a continuation receives. They agree for a
computation that finishes as soon as it is visited; for one that may have to wait, a leaf produces a
future of a `V`.

A graph may unfold forever, so it cannot be a finite tree of leaves and binds alone. Two further
constructors close the gap. `cycle` goes back to its own beginning, and `named` stands for the right
hand side of an equation of a system `Equations`. `Graph.shape` shows both as the leaf or bind they
unfold to, and no other definition looks at a graph.
-/

namespace Deferral

/-- One node of a graph, as a visit sees it. -/
inductive Shape (σ L V N : Type) where
  /-- Produces a result each time it is visited. -/
  | leaf (produce : Call σ L)
  /-- Runs the predecessor and asks the continuation for the node to go on with. -/
  | bind (predecessor : N) (resume : V → Call σ N)

/-- A computation described as a graph; see `Graph.shape` for what its nodes mean. -/
inductive Graph (σ L V ρ : Type) : Type where
  | leaf (produce : σ → Option (Except Panic L × σ))
  | bind (predecessor : Graph σ L V ρ)
      (resume : V → σ → Option (Except Panic (Graph σ L V ρ) × σ))
  /-- The body again and again; each round's value is shown to `accept` before the next round. -/
  | cycle (body : Graph σ L V ρ) (accept : V → σ → Option (Except Panic Unit × σ))
  | named (name : ρ)

/-- A system of equations, one for each name; the names of one may occur in the right hand sides of
the others, so the graphs they stand for may unfold without end. -/
class Equations (ρ σ L V : Type) where
  node : ρ → Shape σ L V (Graph σ L V ρ)

instance (σ L V : Type) : Equations Empty σ L V where
  node name := name.elim

namespace Graph

variable {σ L V ρ : Type}

/-- A function from the value of a bind's predecessor to the graph that the bind goes on with. -/
abbrev Continuation (σ L V ρ : Type) := V → Call σ (Graph σ L V ρ)

/-- The leaf or bind that a graph is seen as. -/
def shape [Equations ρ σ L V] : Graph σ L V ρ → Shape σ L V (Graph σ L V ρ)
  | .leaf produce => .leaf produce
  | .bind predecessor resume => .bind predecessor resume
  | .cycle body accept => .bind body fun value => do
      let () ← accept value
      return .cycle body accept
  | .named name => Equations.node name

/-- Feed the value of a graph to a function that answers with a further graph. -/
def flatMap (graph : Graph σ L V ρ) (function : Continuation σ L V ρ) : Graph σ L V ρ :=
  .bind graph function

/-- Run one graph, drop its value and run the other. -/
def andThen (first second : Graph σ L V ρ) : Graph σ L V ρ :=
  first.flatMap fun _ => return second

/-- Run a graph endlessly. Each round starts with nothing pending, because the bind that a cycle
unfolds to has the body, and not the cycle, as its predecessor. -/
def forever (body : Graph σ L V ρ) : Graph σ L V ρ :=
  .cycle body fun _ => (pure () : Call σ Unit)

/-- What a node is, without its functions. -/
inductive Kind where
  | leaf
  | bind
  deriving Repr, DecidableEq

/-- Whether the first node of a graph is a leaf or a bind. -/
def kind [Equations ρ σ L V] (graph : Graph σ L V ρ) : Kind :=
  match graph.shape with
  | .leaf _ => .leaf
  | .bind _ _ => .bind

/-- What is shown of a graph when it is printed. -/
def Kind.label : Kind → String
  | .leaf => "<leaf>"
  | .bind => "<bind>"

section Shape

variable [Equations ρ σ L V]

@[simp]
theorem shape_leaf (produce : Call σ L) :
    (Graph.leaf produce : Graph σ L V ρ).shape = .leaf produce := rfl

@[simp]
theorem shape_bind (graph : Graph σ L V ρ) (resume : Continuation σ L V ρ) :
    (Graph.bind graph resume).shape = .bind graph resume := rfl

@[simp]
theorem shape_flatMap (graph : Graph σ L V ρ) (function : Continuation σ L V ρ) :
    (graph.flatMap function).shape = .bind graph function := rfl

@[simp]
theorem shape_andThen (first second : Graph σ L V ρ) :
    (first.andThen second).shape = .bind first fun _ => pure second := rfl

@[simp]
theorem shape_forever (body : Graph σ L V ρ) :
    body.forever.shape = .bind body fun _ => pure body.forever := rfl

@[simp]
theorem shape_named (name : ρ) :
    (Graph.named name : Graph σ L V ρ).shape = Equations.node name := rfl

end Shape

end Graph

end Deferral

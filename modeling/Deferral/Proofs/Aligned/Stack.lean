import Deferral.Graph.Map
import Deferral.Proofs.Call
import Deferral.Run.Pending
import Deferral.Typed.Value

/-!
# Continuations that fit on top of each other

The machines know nothing of types: they hand a value to whichever continuation waited last, and it
panics if the value is not of the type it takes. Nobody can tell from one continuation alone that
this does not happen. What is shown is that all that wait fit together: the node that is visited
next yields what the first one takes, each one goes on with what the one below it takes, and the
last one goes on with values of the type of the whole run.

A `Typing` says which graphs yield values of which type, whatever the world is like. One more graph
does so in one world only: the leaf that takes a value which was left for it just before.
-/

namespace Deferral

variable {ι σ α β L ρ : Type} {Base : ι → Type}

namespace Call

variable {raised : Panic → Prop}

/-- Whatever a call panics with is one of the panics that are raised. -/
def PanicsOnly (raised : Panic → Prop) (call : Call σ α) : Prop :=
  ∀ ⦃before reason after⦄, call before = some (.error reason, after) → raised reason

namespace PanicsOnly

theorem pure (value : α) : (pure value : Call σ α).PanicsOnly raised := by
  intro before reason after called
  cases called

theorem change (step : σ → α × σ) : (Call.change step).PanicsOnly raised := by
  intro before reason after called
  cases called

theorem reserve {bytes count : Nat}
    (overflows : mostBytes < bytes * count → raised (.text "capacity overflow")) :
    (Call.reserve bytes count : Call σ Unit).PanicsOnly raised := by
  intro before reason after called
  rcases Nat.lt_or_ge mostBytes (bytes * count) with lt | le
  · rw [reserve_of_lt lt] at called
    cases called
    exact overflows lt
  · rw [reserve_of_le le] at called
    cases called

theorem withUser {ω V : Type} (step : ω → α × ω) :
    (Session.withUser step : Call (Session ω V) α).PanicsOnly raised :=
  change _

theorem bind {call : Call σ α} {next : α → Call σ β} (first : call.PanicsOnly raised)
    (second : ∀ value, (next value).PanicsOnly raised) : (call >>= next).PanicsOnly raised := by
  intro before reason after called
  rcases bind_eq_some_iff.mp called with ⟨_, panicked, same⟩ | ⟨value, between, _, called⟩
  · cases same
    exact first panicked
  · exact second value called

end PanicsOnly

end Call

/-- What is known of the graphs of a program. -/
structure Typing {ι : Type} (Base : ι → Type) (σ L ρ : Type) where
  /-- What a continuation says about a value of another type than the one it takes. -/
  complaint : String
  /-- The panics that are raised by what the graphs are made of. -/
  raised : Panic → Prop
  /-- A graph yields values of a type, in whatever world it is visited. -/
  known : Ty ι → Graph σ L (Tagged Base) ρ → Prop

namespace Typing

variable [Host σ (Tagged Base)] [Immediate (Tagged Base) L] (typing : Typing Base σ L ρ)

/-- A graph yields values of a type if it is visited in the given world. -/
inductive Yields : Ty ι → Graph σ L (Tagged Base) ρ → σ → Prop
  | known {t : Ty ι} {graph : Graph σ L (Tagged Base) ρ} (graph_known : typing.known t graph)
      (world : σ) : Yields t graph world
  /-- A value has just been left, and the leaf takes it. -/
  | left (value : Tagged Base) (world : σ) :
      Yields value.type (.once (Host.leave value world).1) (Host.leave value world).2

/-- A continuation takes values of one type and goes on with a graph that yields values of another.
It refuses every value that is not of the type it takes. -/
structure Takes (s t : Ty ι) (resume : Graph.Continuation σ L (Tagged Base) ρ) : Prop where
  refuses : ∀ value : Tagged Base, value.type ≠ s → resume value = Call.panic typing.complaint
  panics : ∀ item : s.Value Base, (resume ⟨s, item⟩).PanicsOnly typing.raised
  answers : ∀ (item : s.Value Base) ⦃before next after⦄,
    resume ⟨s, item⟩ before = some (.ok next, after) → typing.Yields t next after

/-- Continuations that take a value of one type and end with a value of another. -/
inductive Stack : Ty ι → List (Graph.Continuation σ L (Tagged Base) ρ) → Ty ι → Prop
  | nil (t : Ty ι) : Stack t [] t
  | cons {s between t : Ty ι} {resume : Graph.Continuation σ L (Tagged Base) ρ}
      {waiting : List (Graph.Continuation σ L (Tagged Base) ρ)}
      (takes : typing.Takes s between resume) (below : Stack between waiting t) :
      Stack s (resume :: waiting) t

/-- A node that yields values of a type if it is visited in the given world, where `product` says
the same of what a leaf produces. -/
inductive Node (product : Ty ι → L → σ → Prop) (t : Ty ι) (world : σ) :
    Shape σ L (Tagged Base) (Graph σ L (Tagged Base) ρ) → Prop
  | leaf {produce : Call σ L}
      (panics : ∀ reason after, produce world = some (.error reason, after) → typing.raised reason)
      (produces : ∀ found after, produce world = some (.ok found, after) → product t found after) :
      Node product t world (.leaf produce)
  | bind {s : Ty ι} {predecessor : Graph σ L (Tagged Base) ρ}
      {resume : Graph.Continuation σ L (Tagged Base) ρ}
      (first : typing.Yields s predecessor world) (takes : typing.Takes s t resume) :
      Node product t world (.bind predecessor resume)

/-- The node of every graph yields what the graph is known to yield. -/
def Closed [Equations ρ σ L (Tagged Base)] (product : Ty ι → L → σ → Prop) : Prop :=
  ∀ ⦃t graph world⦄, typing.Yields t graph world → typing.Node product t world graph.shape

variable {typing}

theorem Stack.type_eq {s t : Ty ι} (stack : typing.Stack s [] t) : s = t := by
  cases stack
  rfl

/-- The continuation that waited last takes what the stack takes, and goes on with what the others
take. -/
theorem Stack.of_pop {s t : Ty ι}
    {pending below : Pending (Graph.Continuation σ L (Tagged Base) ρ)}
    {resume : Graph.Continuation σ L (Tagged Base) ρ} (stack : typing.Stack s pending.waiting t)
    (popped : pending.pop? = some (resume, below)) :
    ∃ between, typing.Takes s between resume ∧ typing.Stack between below.waiting t := by
  rcases pending with ⟨_ | ⟨first, waiting⟩, depth, peak⟩
  · cases popped
  · cases popped
    rcases stack with _ | ⟨takes, below⟩
    exact ⟨_, takes, below⟩

section Nodes

variable {product : Ty ι → L → σ → Prop} {t : Ty ι} {world : σ}

/-- A leaf that calls a function yields the value that the function returns. -/
theorem Node.fromThunk {produce : Call σ (Tagged Base)}
    (panics : ∀ reason after, produce world = some (.error reason, after) → typing.raised reason)
    (produces : ∀ value after, produce world = some (.ok value, after) →
      product t (Immediate.ready value) after) :
    typing.Node product t world (.leaf (Immediate.ready <$> produce)) := by
  refine .leaf (fun reason after called => ?_) fun found after called => ?_
  · exact panics reason after (Call.map_eq_error_iff.mp called)
  · rcases Call.map_eq_ok_iff.mp called with ⟨value, returned, rfl⟩
    exact produces value after returned

/-- A value that has just been left is there to be taken, and it is the only one that can be. -/
theorem Node.left [Equations ρ σ L (Tagged Base)] {value : Tagged Base}
    (ready : product value.type (Immediate.ready value) world) :
    typing.Node product value.type (Host.leave value world).2
      (Graph.once (Host.leave value world).1 : Graph σ L (Tagged Base) ρ).shape := by
  have taken := Host.takeOnce_leave value world
  refine .fromThunk (fun reason after called => ?_) fun found after called => ?_
  · cases taken.symm.trans called
  · cases taken.symm.trans called
    exact ready

end Nodes

section Left

variable {N : Type} {call : Call σ (Tagged Base)} {wrap : Graph σ L (Tagged Base) ρ → N}
  {graph : N → Graph σ L (Tagged Base) ρ}

theorem left_panicsOnly {raised : Panic → Prop} (panics : call.PanicsOnly raised) :
    (do let result ← call
        return wrap (← Graph.leaveOnce result) : Call σ N).PanicsOnly raised :=
  panics.bind fun _ => .bind (.bind (.change _) fun _ => .pure _) fun _ => .pure _

/-- Leaving a value behind and going on with the leaf that takes it yields what was left. -/
theorem yields_of_left {t : Ty ι} {before after : σ} {next : N}
    (graph_wrap : ∀ inner, graph (wrap inner) = inner)
    (type_eq : ∀ value after, call before = some (.ok value, after) → value.type = t)
    (called : (do let result ← call
                  return wrap (← Graph.leaveOnce result) : Call σ N) before =
                    some (.ok next, after)) :
    typing.Yields t (graph next) after := by
  rcases Call.bind_eq_ok_iff.mp called with ⟨value, between, returned, called⟩
  rcases Call.bind_eq_ok_iff.mp called with ⟨inner, last, left, answered⟩
  rcases Call.bind_eq_ok_iff.mp left with ⟨place, _, changed, found⟩
  cases changed
  cases found
  cases answered
  rw [graph_wrap, ← type_eq value between returned]
  exact .left value between

end Left

section Takes

variable [DecidableEq ι] {s t : Ty ι} {N : Type}

/-- A continuation that looks at the type of the value, and then gives the value itself to a
function that answers with something that has a graph. -/
theorem Takes.of_function {function : s.Value Base → Call σ N}
    (graph : N → Graph σ L (Tagged Base) ρ)
    (panics : ∀ item, (function item).PanicsOnly typing.raised)
    (answers : ∀ item ⦃before next after⦄, function item before = some (.ok next, after) →
      typing.Yields t (graph next) after) :
    typing.Takes s t fun value => do
      let next ← function (← value.expect typing.complaint s)
      return graph next where
  refuses value different := by
    rw [Tagged.expect, (Tagged.as?_eq_none_iff s value).mpr different]
    rfl
  panics item := by
    rw [Tagged.expect_mk, pure_bind]
    exact (panics item).bind fun _ => .pure _
  answers item before node after resumed := by
    rw [Tagged.expect_mk, pure_bind] at resumed
    rcases Call.bind_eq_ok_iff.mp resumed with ⟨next, between, called, answered⟩
    cases answered
    exact answers item called

/-- A continuation that looks at the type of the value, and then goes on with a graph whatever the
value is. -/
theorem Takes.of_accept {graph : Graph σ L (Tagged Base) ρ} (known : typing.known t graph) :
    typing.Takes s t fun value => do
      let () ← (do let _ ← value.expect typing.complaint s : Call σ Unit)
      return graph where
  refuses value different := by
    rw [Tagged.expect, (Tagged.as?_eq_none_iff s value).mpr different]
    rfl
  panics item := by
    rw [Tagged.expect_mk]
    exact .pure _
  answers item before node after resumed := by
    rw [Tagged.expect_mk] at resumed
    cases resumed
    exact .known known _

end Takes

end Typing

end Deferral

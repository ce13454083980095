import Deferral.Proofs.Run.Answers

/-!
# The accounts of a run

A run visits binds and leaves. A bind lets one continuation wait and a leaf takes one off the stack,
so the number that waits is the number of binds less the number of leaves, from the start of the run
on. A run that finishes has visited one leaf more than binds, since its last leaf finds the stack
empty.
-/

namespace Deferral

namespace Graph

variable {σ V ρ : Type} [Equations ρ σ V V] {graph : Graph σ V V ρ}

theorem kind_of_leaf {produce : Call σ V} (shape_eq : graph.shape = .leaf produce) :
    graph.kind = .leaf := by
  rw [kind, shape_eq]

theorem kind_of_bind {predecessor : Graph σ V V ρ} {resume : Continuation σ V V ρ}
    (shape_eq : graph.shape = .bind predecessor resume) : graph.kind = .bind := by
  rw [kind, shape_eq]

theorem exists_shape_of_kind (graph : Graph σ V V ρ) :
    (∃ produce, graph.kind = .leaf ∧ graph.shape = .leaf produce) ∨
      ∃ predecessor resume, graph.kind = .bind ∧ graph.shape = .bind predecessor resume := by
  rcases shape_eq : graph.shape with produce | ⟨predecessor, resume⟩
  · exact .inl ⟨produce, kind_of_leaf shape_eq, rfl⟩
  · exact .inr ⟨predecessor, resume, kind_of_bind shape_eq, rfl⟩

end Graph

namespace Machine

variable {σ V ρ : Type} [Equations ρ σ V V]
variable {visits more number : Nat} {machine next last : Machine σ V ρ} {before between after : σ}

/-- The kinds of the nodes that are visited first, in the order of the visits. A run that ends with
fewer visits has no more. -/
def path : Nat → Machine σ V ρ → σ → List Graph.Kind
  | 0, _, _ => []
  | visits + 1, machine, world =>
    machine.current.kind ::
      match machine.visit world with
      | some (.ok (.moved next), after) => path visits next after
      | _ => []

theorem path_succ_of_moved (moved : machine.visit before = some (.ok (.moved next), between)) :
    machine.path (visits + 1) before = machine.current.kind :: next.path visits between := by
  rw [path, moved]

theorem Reaches.path_add (reaches : Reaches visits machine before last after) (more : Nat) :
    machine.path (visits + more) before = machine.path visits before ++ last.path more after := by
  induction reaches with
  | start => rw [Nat.zero_add, path, List.nil_append]
  | visit moved _ ih =>
      rw [Nat.add_right_comm, path_succ_of_moved moved, path_succ_of_moved moved, ih,
        List.cons_append]

theorem Reaches.length_path (reaches : Reaches visits machine before last after) :
    (machine.path visits before).length = visits := by
  induction reaches with
  | start => rfl
  | visit moved _ ih => rw [path_succ_of_moved moved, List.length_cons, ih]

/-- The node of a visit that begins is found in the path of every longer run. -/
theorem Reaches.getElem?_path (reaches : Reaches number machine before last after) (more : Nat) :
    (machine.path (number + (more + 1)) before)[number]? = some last.current.kind := by
  rw [reaches.path_add, List.getElem?_append_right (Nat.le_of_eq reaches.length_path),
    reaches.length_path, Nat.sub_self, path]
  rfl

/-- A path that ends with a value has as many nodes as visits were made, and the last one is a
leaf. -/
theorem Ends.path_eq {value : V} {stats : RunStats}
    (ends : Ends (visits + 1) machine before (.ok (value, stats)) after) :
    machine.path (visits + 1) before = machine.path visits before ++ [.leaf] := by
  rcases ends.exists_last with ⟨fewer, last, between, visits_eq, reaches, finished⟩
  obtain rfl := Nat.succ.inj visits_eq
  have ended := (visits_iff _ _ _ _).mp finished
  cases ended with
  | finishes shape_eq produced popped =>
      rw [reaches.path_add 1, path, Graph.kind_of_leaf shape_eq, finished]
      rfl

/-- What is found in the path of a run that finishes was visited. -/
theorem Ends.exists_visited {value : V} {stats : RunStats} {kind : Graph.Kind}
    (ends : Ends visits machine before (.ok (value, stats)) after)
    (found : (machine.path visits before)[number]? = some kind) :
    ∃ last between, Reaches number machine before last between ∧ last.current.kind = kind := by
  rcases ends.exists_last with ⟨fewer, _, _, rfl, reaches, _⟩
  have length_eq : (machine.path (fewer + 1) before).length = fewer + 1 := by
    rw [ends.path_eq, List.length_append, reaches.length_path, List.length_singleton]
  have less := (List.getElem?_eq_some_iff.mp found).1
  rw [length_eq] at less
  rcases ends.exists_reaches less with ⟨last, between, visited⟩
  have kind_eq := visited.getElem?_path (fewer - number)
  rw [show number + (fewer - number + 1) = fewer + 1 by omega, found, Option.some.injEq] at kind_eq
  exact ⟨last, between, visited, kind_eq.symm⟩

section Balance

/-- What one visit does to the accounts. -/
theorem visit_balance (moved : machine.visit before = some (.ok (.moved next), between)) :
    machine.current.kind = .bind ∧
        next.pending.waiting.length = machine.pending.waiting.length + 1 ∨
      machine.current.kind = .leaf ∧
        next.pending.waiting.length + 1 = machine.pending.waiting.length := by
  have visits := (visits_iff _ _ _ _).mp moved
  cases visits with
  | descends shape_eq => exact .inl ⟨Graph.kind_of_bind shape_eq, rfl⟩
  | resumes shape_eq produced popped resumed =>
      rcases Pending.pop?_eq_some_iff.mp popped with ⟨waiting_eq, _, _⟩
      exact .inr ⟨Graph.kind_of_leaf shape_eq, by rw [waiting_eq, List.length_cons]⟩

/-- What waits is what waited before, one more for each bind and one less for each leaf. -/
theorem Reaches.balance (reaches : Reaches visits machine before last after) :
    last.pending.waiting.length + (machine.path visits before).count .leaf =
      machine.pending.waiting.length + (machine.path visits before).count .bind := by
  induction reaches with
  | start => rfl
  | visit moved _ ih =>
      rw [path_succ_of_moved moved]
      rcases visit_balance moved with ⟨kind_eq, length_eq⟩ | ⟨kind_eq, length_eq⟩
      · simp only [kind_eq, List.count_cons_self, List.count_cons_of_ne, ne_eq, reduceCtorEq,
          not_false_eq_true]
        omega
      · simp only [kind_eq, List.count_cons_self, List.count_cons_of_ne, ne_eq, reduceCtorEq,
          not_false_eq_true]
        omega

/-- The mark rises by at most one for each bind. -/
theorem Reaches.peak_le (reaches : Reaches visits machine before last after)
    (sound : machine.pending.Sound) :
    last.pending.peak ≤ machine.pending.peak + (machine.path visits before).count .bind := by
  induction reaches with
  | start => exact Nat.le_add_right _ _
  | visit moved _ ih =>
      rcases visit_sound moved sound with ⟨next_sound, peak_eq⟩
      have rest := ih next_sound
      have within := sound.length_le_peak
      rw [path_succ_of_moved moved]
      rcases visit_balance moved with ⟨kind_eq, length_eq⟩ | ⟨kind_eq, length_eq⟩
      · simp only [kind_eq, List.count_cons_self]
        omega
      · simp only [kind_eq, List.count_cons_of_ne, ne_eq, reduceCtorEq, not_false_eq_true]
        omega

end Balance

/-- Every node is a bind or a leaf. -/
theorem count_bind_add_count_leaf (nodes : List Graph.Kind) :
    nodes.count .bind + nodes.count .leaf = nodes.length := by
  induction nodes with
  | nil => rfl
  | cons kind nodes ih =>
      cases kind with
      | leaf =>
          simp only [List.count_cons_self, List.count_cons_of_ne, ne_eq, reduceCtorEq,
            not_false_eq_true, List.length_cons]
          omega
      | bind =>
          simp only [List.count_cons_self, List.count_cons_of_ne, ne_eq, reduceCtorEq,
            not_false_eq_true, List.length_cons]
          omega

/-- The accounts between two visits: every visit was one of a bind or of a leaf, what waits is the
difference, and the mark is the largest number of continuations that ever waited. -/
structure Balanced (machine : Machine σ V ρ) (before : σ) (visits : Nat) (last : Machine σ V ρ) :
    Prop where
  steps_eq : last.steps = (machine.path visits before).count .bind +
    (machine.path visits before).count .leaf
  pending_eq : last.pending.waiting.length + (machine.path visits before).count .leaf =
    (machine.path visits before).count .bind
  depth_eq : last.pending.depth = last.pending.waiting.length
  peak_isGreatest : IsGreatest (depths visits machine before) last.pending.peak
  pending_le_peak : last.pending.waiting.length ≤ last.pending.peak
  peak_le_binds : last.pending.peak ≤ (machine.path visits before).count .bind

theorem Reaches.balanced {graph : Graph σ V V ρ}
    (reaches : Reaches visits (Machine.start graph) before last after) :
    (Machine.start graph).Balanced before visits last where
  steps_eq := by
    rw [reaches.steps_eq, count_bind_add_count_leaf, reaches.length_path]
    exact Nat.zero_add _
  pending_eq := by
    rw [reaches.balance]
    exact Nat.zero_add _
  depth_eq := (reaches.sound Pending.sound_empty).counted
  peak_isGreatest := reaches.peak_isGreatest
  pending_le_peak := (reaches.sound Pending.sound_empty).length_le_peak
  peak_le_binds := by
    have le := reaches.peak_le Pending.sound_empty
    have fresh : (Machine.start graph).pending.peak = 0 := rfl
    omega

/-- What waits is even after an even number of visits and odd after an odd one, and never more
continuations waited than visits were made. -/
theorem Reaches.pending_mod_two {graph : Graph σ V V ρ}
    (reaches : Reaches visits (Machine.start graph) before last after) :
    last.pending.waiting.length % 2 = visits % 2 ∧
      last.pending.waiting.length ≤ last.pending.peak ∧ last.pending.peak ≤ visits := by
  have balanced := reaches.balanced
  have total := count_bind_add_count_leaf ((Machine.start graph).path visits before)
  rw [reaches.length_path] at total
  have pending_eq := balanced.pending_eq
  have peak_le := balanced.peak_le_binds
  exact ⟨by omega, balanced.pending_le_peak, by omega⟩

/-- A run that finishes has visited one more leaf than binds. -/
theorem Ends.balanced {graph : Graph σ V V ρ} {value : V} {stats : RunStats}
    (ends : Ends visits (Machine.start graph) before (.ok (value, stats)) after) :
    let binds := ((Machine.start graph).path visits before).count .bind
    ((Machine.start graph).path visits before).count .leaf = binds + 1 ∧
      stats.steps = visits ∧ visits = 2 * binds + 1 ∧ stats.peakStackDepth ≤ binds := by
  rcases ends.exists_last with ⟨fewer, last, between, rfl, reaches, finished⟩
  have steps_eq : stats.steps = fewer + 1 := ends.steps_eq.trans (Nat.zero_add _)
  have ended := (visits_iff _ _ _ _).mp finished
  cases ended with
  | finishes shape_eq produced popped =>
      have balanced := reaches.balanced
      have empty := (Pending.pop?_eq_none_iff _).mp popped
      have pending_eq := balanced.pending_eq
      have total := count_bind_add_count_leaf ((Machine.start graph).path fewer before)
      rw [reaches.length_path] at total
      rw [empty, List.length_nil, Nat.zero_add] at pending_eq
      simp only [ends.path_eq, List.count_append, List.count_singleton_self, List.count_cons_of_ne,
        List.count_nil, ne_eq, reduceCtorEq, not_false_eq_true, Nat.add_zero]
      exact ⟨by omega, steps_eq, by omega, balanced.peak_le_binds⟩

end Machine

end Deferral

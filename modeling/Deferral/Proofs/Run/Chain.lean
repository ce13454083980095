import Deferral.Proofs.Run.Forever
import Deferral.Proofs.Run.Recursion

/-!
# Chains

A chain runs computations one after the other and keeps the value of the last one. It can be nested
to the left, so that the whole chain before an element is the predecessor of one bind, or to the
right, so that the whole chain after an element is what one bind goes on with. Either way the
elements run in turn, each in the world that the one before left, and every join costs one visit.

The two differ in what waits. Nested to the left, an element runs below one continuation for each
element after it; nested to the right, below a single one, and the last element below none. The
depth of a chain is that of its deepest element, counted with what waits below it.
-/

namespace Deferral

namespace RunStats

/-- The visits that runs of these sizes take together. -/
def totalSteps : List RunStats → Nat
  | [] => 0
  | size :: sizes => size.steps + totalSteps sizes

/-- The size of a chain nested to the left whose elements have these sizes. -/
def nestedLeft (first : RunStats) (rest : List RunStats) : RunStats :=
  rest.foldl bind first

/-- The size of a chain nested to the right whose elements have these sizes. -/
def nestedRight (first : RunStats) : List RunStats → RunStats
  | [] => first
  | second :: rest => first.bind (second.nestedRight rest)

/-- The depth of elements that run in turn, where an element with so many after it runs below as
many continuations as `waiting` says. -/
def chainDepth (waiting : Nat → Nat) : List RunStats → Nat
  | [] => 0
  | size :: sizes => max (waiting sizes.length + size.peakStackDepth) (chainDepth waiting sizes)

theorem steps_nestedLeft (first : RunStats) (rest : List RunStats) :
    (first.nestedLeft rest).steps = rest.length + totalSteps (first :: rest) := by
  induction rest generalizing first with
  | nil => simp [nestedLeft, totalSteps]
  | cons second rest ih =>
      have joined := ih (first.bind second)
      simp only [nestedLeft, totalSteps, bind] at joined
      simp only [nestedLeft, List.foldl_cons, List.length_cons, totalSteps, bind]
      omega

theorem steps_nestedRight (first : RunStats) (rest : List RunStats) :
    (first.nestedRight rest).steps = rest.length + totalSteps (first :: rest) := by
  induction rest generalizing first with
  | nil => simp [nestedRight, totalSteps]
  | cons second rest ih =>
      have tail := ih second
      simp only [totalSteps] at tail
      simp only [nestedRight, List.length_cons, totalSteps, bind]
      omega

/-- Nested to the left, everything that comes after an element waits for it. -/
theorem peak_nestedLeft (first : RunStats) (rest : List RunStats) :
    (first.nestedLeft rest).peakStackDepth = chainDepth (fun later => later) (first :: rest) := by
  induction rest generalizing first with
  | nil => simp [nestedLeft, chainDepth]
  | cons second rest ih =>
      have joined := ih (first.bind second)
      simp only [nestedLeft, chainDepth, bind] at joined
      simp only [nestedLeft, List.foldl_cons, chainDepth, List.length_cons, bind]
      omega

/-- Nested to the right, one continuation waits for an element that is not the last. -/
theorem peak_nestedRight (first : RunStats) (rest : List RunStats) :
    (first.nestedRight rest).peakStackDepth =
      chainDepth (fun later => min later 1) (first :: rest) := by
  induction rest generalizing first with
  | nil => simp [nestedRight, chainDepth]
  | cons second rest ih =>
      have tail := ih second
      simp only [nestedRight, bind]
      rw [tail]
      simp only [chainDepth, List.length_cons]
      omega

/-- The depth of a chain is that of one of its elements, and no element is deeper. -/
theorem isGreatest_chainDepth (waiting : Nat → Nat) (first : RunStats) (rest : List RunStats) :
    IsGreatest {depth | ∃ number size, (first :: rest)[number]? = some size ∧
      depth = waiting (rest.length - number) + size.peakStackDepth}
      (chainDepth waiting (first :: rest)) := by
  induction rest generalizing first with
  | nil =>
      constructor
      · exact ⟨0, first, rfl, by simp [chainDepth]⟩
      · rintro _ ⟨number, size, size_eq, rfl⟩
        rcases number with _ | number
        · cases size_eq
          simp [chainDepth]
        · simp at size_eq
  | cons second rest ih =>
      rcases ih second with ⟨⟨number, size, size_eq, depth_eq⟩, bounded⟩
      have unfolded : chainDepth waiting (first :: second :: rest) =
          max (waiting (rest.length + 1) + first.peakStackDepth)
            (chainDepth waiting (second :: rest)) := rfl
      rw [unfolded]
      constructor
      · rcases Nat.le_total (chainDepth waiting (second :: rest))
          (waiting (rest.length + 1) + first.peakStackDepth) with le | le
        · rw [Nat.max_eq_left le]
          exact ⟨0, first, rfl, rfl⟩
        · rw [Nat.max_eq_right le]
          refine ⟨number + 1, size, size_eq, ?_⟩
          rw [depth_eq, List.length_cons, Nat.add_sub_add_right]
      · rintro _ ⟨number, size, size_eq, rfl⟩
        rcases number with _ | number
        · cases size_eq
          exact Nat.le_max_left _ _
        · rw [List.length_cons, Nat.add_sub_add_right]
          exact (bounded ⟨number, size, size_eq, rfl⟩).trans (Nat.le_max_right _ _)

theorem eq_chain_iff {stats joined first : RunStats} {rest : List RunStats} {waiting : Nat → Nat}
    (steps_eq : joined.steps = rest.length + totalSteps (first :: rest))
    (peak_eq : joined.peakStackDepth = chainDepth waiting (first :: rest)) :
    stats = joined ↔ stats.steps = rest.length + totalSteps (first :: rest) ∧
      IsGreatest {depth | ∃ number size, (first :: rest)[number]? = some size ∧
        depth = waiting (rest.length - number) + size.peakStackDepth} stats.peakStackDepth := by
  have greatest := isGreatest_chainDepth waiting first rest
  rcases stats with ⟨steps, peak⟩
  rcases joined with ⟨steps', peak'⟩
  simp only at steps_eq peak_eq
  subst steps_eq peak_eq
  rw [RunStats.mk.injEq]
  refine and_congr_right fun _ => ⟨?_, fun found => found.unique greatest⟩
  rintro rfl
  exact greatest

end RunStats

/-- A computation of some type. -/
abbrev Element {ι : Type} (Base : ι → Type) (σ ρ : Type) := Σ t : Ty ι, Deferred Base σ ρ t

namespace Element

variable {ι σ ρ : Type} {Base : ι → Type} [DecidableEq ι]

/-- One element and then another, of which the second has the value. -/
def andThen (first second : Element Base σ ρ) : Element Base σ ρ :=
  ⟨second.1, first.2.andThen second.2⟩

/-- All elements in their order, each one behind all those before it. -/
def nestedLeft (first : Element Base σ ρ) (rest : List (Element Base σ ρ)) : Element Base σ ρ :=
  rest.foldl andThen first

/-- All elements in their order, each one in front of all those behind it. -/
def nestedRight (first : Element Base σ ρ) : List (Element Base σ ρ) → Element Base σ ρ
  | [] => first
  | second :: rest => first.andThen (second.nestedRight rest)

theorem type_nested (first : Element Base σ ρ) (rest : List (Element Base σ ρ)) :
    (first.nestedLeft rest).1 = (first.nestedRight rest).1 := by
  induction rest generalizing first with
  | nil => rfl
  | cons second rest ih =>
      have joined := ih (first.andThen second)
      rw [nestedLeft] at joined
      rw [nestedLeft, List.foldl_cons, joined, nestedRight, andThen]
      rcases rest with _ | ⟨third, rest⟩
      · rfl
      · rfl

/-- What waits for the value of an element while it runs. -/
def goOn (first second : Element Base σ ρ) : Graph.Continuation σ (Tagged Base) (Tagged Base) ρ :=
  fun value => do
    let () ← Deferred.forget first.1 value
    return second.2.graph

theorem goOn_eq_ok_iff {first second : Element Base σ ρ} {fed : Tagged Base}
    {next : Graph σ (Tagged Base) (Tagged Base) ρ} {before after : σ} :
    first.goOn second fed before = some (.ok next, after) ↔
      fed.type = first.1 ∧ next = second.2.graph ∧ after = before := by
  rw [goOn, Call.bind_eq_ok_iff]
  simp only [Deferred.forget_apply, Call.pure_apply, Option.some.injEq, Prod.mk.injEq,
    Except.ok.injEq]
  constructor
  · rintro ⟨⟨⟩, between, ⟨accepted, rfl⟩, rfl, rfl⟩
    refine ⟨?_, rfl, rfl⟩
    by_contra different
    simp [different] at accepted
  · rintro ⟨typed, rfl, rfl⟩
    exact ⟨(), _, ⟨if_pos typed, rfl⟩, rfl, rfl⟩

variable [Definitions Base ρ σ]

/-- Computations run in turn, each on its own, from the world that the one before left. All but the
last yield a value of their type, which is dropped. -/
inductive InTurn : List (Element Base σ ρ) → σ → List RunStats → Tagged Base → σ → Prop
  | last {element : Element Base σ ρ} {before after : σ} {value : Tagged Base} {size : RunStats}
      (finishes : element.2.graph.Finishes before value size after) :
      InTurn [element] before [size] value after
  | next {element : Element Base σ ρ} {rest : List (Element Base σ ρ)} {before between after : σ}
      {dropped value : Tagged Base} {size : RunStats} {sizes : List RunStats}
      (finishes : element.2.graph.Finishes before dropped size between)
      (typed : dropped.type = element.1) (later : InTurn rest between sizes value after) :
      InTurn (element :: rest) before (size :: sizes) value after

theorem shape_andThen (first second : Element Base σ ρ) :
    (first.andThen second).2.graph.shape = .bind first.2.graph (first.goOn second) := by
  have shape_eq : (first.andThen second).2.graph.shape = .bind first.2.graph
      (Deferred.checked fun _ : first.1.Value Base => (return second.2 : Call σ _)) := rfl
  rw [shape_eq]
  congr 1
  funext value
  simp only [Deferred.checked, goOn, Deferred.forget, bind_assoc, pure_bind]

variable {first second element : Element Base σ ρ} {rest : List (Element Base σ ρ)}
  {before after : σ} {value : Tagged Base} {stats : RunStats} {sizes : List RunStats}

theorem andThen_finishes_iff :
    (first.andThen second).2.graph.Finishes before value stats after ↔
      ∃ dropped size between size', first.2.graph.Finishes before dropped size between ∧
        dropped.type = first.1 ∧ second.2.graph.Finishes between value size' after ∧
        stats = size.bind size' := by
  rw [Graph.finishes_of_bind_iff (shape_andThen first second)]
  constructor
  · rintro ⟨dropped, size, between, next, resumed, size', finishes, called, next_finishes, rfl⟩
    rcases goOn_eq_ok_iff.mp called with ⟨typed, rfl, rfl⟩
    exact ⟨dropped, size, _, size', finishes, typed, next_finishes, rfl⟩
  · rintro ⟨dropped, size, between, size', finishes, typed, next_finishes, rfl⟩
    exact ⟨dropped, size, between, second.2.graph, between, size', finishes,
      goOn_eq_ok_iff.mpr ⟨typed, rfl, rfl⟩, next_finishes, rfl⟩

theorem inTurn_singleton_iff :
    InTurn [element] before sizes value after ↔
      ∃ size, element.2.graph.Finishes before value size after ∧ sizes = [size] := by
  constructor
  · rintro (finishes | ⟨_, _, later⟩)
    · exact ⟨_, finishes, rfl⟩
    · cases later
  · rintro ⟨size, finishes, rfl⟩
    exact .last finishes

theorem inTurn_cons_iff :
    InTurn (element :: first :: rest) before sizes value after ↔
      ∃ dropped size between sizes', element.2.graph.Finishes before dropped size between ∧
        dropped.type = element.1 ∧ InTurn (first :: rest) between sizes' value after ∧
        sizes = size :: sizes' := by
  constructor
  · rintro (_ | ⟨finishes, typed, later⟩)
    exact ⟨_, _, _, _, finishes, typed, later, rfl⟩
  · rintro ⟨dropped, size, between, sizes', finishes, typed, later, rfl⟩
    exact .next finishes typed later

theorem InTurn.length_eq (inTurn : InTurn (first :: rest) before sizes value after) :
    sizes.length = rest.length + 1 := by
  induction rest generalizing first before sizes with
  | nil =>
      rcases inTurn_singleton_iff.mp inTurn with ⟨size, _, rfl⟩
      rfl
  | cons second rest ih =>
      rcases inTurn_cons_iff.mp inTurn with ⟨_, size, between, sizes, _, _, later, rfl⟩
      rw [List.length_cons, ih later, List.length_cons]

/-- Two elements in turn may be joined to one, whose size is that of the two together. -/
theorem inTurn_andThen_iff :
    InTurn (first.andThen second :: rest) before sizes value after ↔
      ∃ size size' sizes', InTurn (first :: second :: rest) before (size :: size' :: sizes') value
        after ∧ sizes = size.bind size' :: sizes' := by
  rcases rest with _ | ⟨third, rest⟩
  · rw [inTurn_singleton_iff]
    constructor
    · rintro ⟨_, joined, rfl⟩
      rcases andThen_finishes_iff.mp joined with
        ⟨dropped, size, between, size', finishes, typed, later, rfl⟩
      exact ⟨size, size', [], .next finishes typed (.last later), rfl⟩
    · rintro ⟨size, size', sizes', inTurn, rfl⟩
      rcases inTurn_cons_iff.mp inTurn with ⟨dropped, _, between, _, finishes, typed, later, same⟩
      rcases inTurn_singleton_iff.mp later with ⟨_, last_finishes, rfl⟩
      cases same
      exact ⟨_, andThen_finishes_iff.mpr
        ⟨dropped, size, between, size', finishes, typed, last_finishes, rfl⟩, rfl⟩
  · rw [inTurn_cons_iff]
    constructor
    · rintro ⟨dropped', _, between', sizes', joined, typed', later, rfl⟩
      rcases andThen_finishes_iff.mp joined with
        ⟨dropped, size, between, size', finishes, typed, second_finishes, rfl⟩
      exact ⟨size, size', sizes', .next finishes typed (.next second_finishes typed' later), rfl⟩
    · rintro ⟨size, size', sizes', inTurn, rfl⟩
      rcases inTurn_cons_iff.mp inTurn with ⟨dropped, _, between, _, finishes, typed, second, same⟩
      cases same
      rcases inTurn_cons_iff.mp second with
        ⟨dropped', _, between', _, second_finishes, typed', later, same⟩
      cases same
      exact ⟨dropped', size.bind size', between', sizes', andThen_finishes_iff.mpr
        ⟨dropped, size, between, size', finishes, typed, second_finishes, rfl⟩, typed', later, rfl⟩

/-- The sizes of a chain's elements tell its size, if the elements run in turn. -/
theorem exists_sizes_iff {joined : RunStats → List RunStats → RunStats} {waiting : Nat → Nat}
    (steps_eq : ∀ first rest,
      (joined first rest).steps = rest.length + RunStats.totalSteps (first :: rest))
    (peak_eq : ∀ first rest,
      (joined first rest).peakStackDepth = RunStats.chainDepth waiting (first :: rest)) :
    (∃ size sizes, InTurn (first :: rest) before (size :: sizes) value after ∧
        stats = joined size sizes) ↔
      ∃ sizes, InTurn (first :: rest) before sizes value after ∧
        stats.steps = rest.length + RunStats.totalSteps sizes ∧
        IsGreatest {depth | ∃ number size, sizes[number]? = some size ∧
          depth = waiting (rest.length - number) + size.peakStackDepth} stats.peakStackDepth := by
  constructor
  · rintro ⟨size, sizes, inTurn, stats_eq⟩
    have length_eq : sizes.length = rest.length := Nat.succ.inj inTurn.length_eq
    rw [RunStats.eq_chain_iff (steps_eq size sizes) (peak_eq size sizes), length_eq] at stats_eq
    exact ⟨size :: sizes, inTurn, stats_eq⟩
  · rintro ⟨sizes, inTurn, stats_eq⟩
    have length_eq := inTurn.length_eq
    rcases sizes with _ | ⟨size, sizes⟩
    · simp at length_eq
    · rw [← Nat.succ.inj length_eq] at stats_eq
      exact ⟨size, sizes, inTurn,
        (RunStats.eq_chain_iff (steps_eq size sizes) (peak_eq size sizes)).mpr stats_eq⟩

theorem nestedLeft_finishes_iff :
    (first.nestedLeft rest).2.graph.Finishes before value stats after ↔
      ∃ size sizes, InTurn (first :: rest) before (size :: sizes) value after ∧
        stats = size.nestedLeft sizes := by
  induction rest generalizing first with
  | nil =>
      constructor
      · intro finishes
        exact ⟨stats, [], .last finishes, rfl⟩
      · rintro ⟨size, sizes, inTurn, rfl⟩
        rcases inTurn_singleton_iff.mp inTurn with ⟨_, finishes, same⟩
        cases same
        exact finishes
  | cons second rest ih =>
      refine ih.trans ?_
      constructor
      · rintro ⟨joined, sizes, inTurn, rfl⟩
        rcases inTurn_andThen_iff.mp inTurn with ⟨size, size', sizes', inTurn, same⟩
        cases same
        exact ⟨size, size' :: sizes, inTurn, rfl⟩
      · rintro ⟨size, sizes, inTurn, rfl⟩
        rcases sizes with _ | ⟨size', sizes⟩
        · have length_eq := inTurn.length_eq
          simp at length_eq
        · exact ⟨size.bind size', sizes,
            inTurn_andThen_iff.mpr ⟨size, size', sizes, inTurn, rfl⟩, rfl⟩

theorem nestedRight_finishes_iff :
    (first.nestedRight rest).2.graph.Finishes before value stats after ↔
      ∃ size sizes, InTurn (first :: rest) before (size :: sizes) value after ∧
        stats = size.nestedRight sizes := by
  induction rest generalizing first before stats with
  | nil =>
      constructor
      · intro finishes
        exact ⟨stats, [], .last finishes, rfl⟩
      · rintro ⟨size, sizes, inTurn, rfl⟩
        rcases inTurn_singleton_iff.mp inTurn with ⟨_, finishes, same⟩
        cases same
        exact finishes
  | cons second rest ih =>
      rw [nestedRight, andThen_finishes_iff]
      constructor
      · rintro ⟨dropped, size, between, _, finishes, typed, later, rfl⟩
        rcases ih.mp later with ⟨size', sizes, inTurn, rfl⟩
        exact ⟨size, size' :: sizes, .next finishes typed inTurn, rfl⟩
      · rintro ⟨size, sizes, inTurn, rfl⟩
        rcases inTurn_cons_iff.mp inTurn with
          ⟨dropped, _, between, _, finishes, typed, later, same⟩
        cases same
        rcases sizes with _ | ⟨size', sizes⟩
        · have length_eq := later.length_eq
          simp at length_eq
        · exact ⟨dropped, size, between, _, finishes, typed, ih.mpr ⟨size', sizes, later, rfl⟩, rfl⟩

theorem eval_andThen (first second : Element Base σ ρ) :
    (first.andThen second).2.graph.eval = (do
      let value ← first.2.graph.eval
      let () ← Deferred.forget first.1 value
      second.2.graph.eval) := by
  rw [Graph.eval_of_bind (shape_andThen first second)]
  simp only [goOn, bind_assoc, pure_bind]

/-- A chain nested to the left goes on as what its first element goes on with does. -/
theorem eval_nestedLeft_cons (first second : Element Base σ ρ) (rest : List (Element Base σ ρ)) :
    (first.nestedLeft (second :: rest)).2.graph.eval = (do
      let value ← first.2.graph.eval
      let () ← Deferred.forget first.1 value
      (second.nestedLeft rest).2.graph.eval) := by
  induction rest generalizing first second with
  | nil => exact eval_andThen first second
  | cons third rest ih =>
      have joined := ih (first.andThen second) third
      rw [eval_andThen] at joined
      rw [ih second third]
      simp only [bind_assoc] at joined
      exact joined

theorem eval_nested (first : Element Base σ ρ) (rest : List (Element Base σ ρ)) :
    (first.nestedLeft rest).2.graph.eval = (first.nestedRight rest).2.graph.eval := by
  induction rest generalizing first with
  | nil => rfl
  | cons second rest ih =>
      rw [eval_nestedLeft_cons, nestedRight, eval_andThen, ih]

/-- Where all elements are leaves, each of them runs with an empty stack. -/
theorem InTurn.peak_eq_zero (inTurn : InTurn (first :: rest) before sizes value after)
    (leaves : ∀ element ∈ first :: rest, ∃ produce, element.2.graph.shape = .leaf produce) :
    ∀ size ∈ sizes, size.peakStackDepth = 0 := by
  have of_leaf {element : Element Base σ ρ} {before after : σ} {value : Tagged Base}
      {size : RunStats} (finishes : element.2.graph.Finishes before value size after)
      (mem : element ∈ first :: rest) : size.peakStackDepth = 0 := by
    rcases leaves element mem with ⟨produce, shape_eq⟩
    rw [((Graph.finishes_of_leaf_iff shape_eq).mp finishes).2, RunStats.leaf]
  generalize elements_eq : first :: rest = elements at inTurn of_leaf
  clear leaves elements_eq
  induction inTurn with
  | last finishes =>
      intro size mem
      rw [List.mem_singleton.mp mem]
      exact of_leaf finishes List.mem_cons_self
  | next finishes _ _ ih =>
      intro size mem
      rcases List.mem_cons.mp mem with rfl | mem
      · exact of_leaf finishes List.mem_cons_self
      · exact ih (fun finishes mem => of_leaf finishes (List.mem_cons_of_mem _ mem)) size mem

/-- A chain may be nested to the left or to the right. Both nestings have the type of the last
element and the same value, effects and panic. They finish when the elements do in turn, after one
visit for each join and the visits of the elements. While an element runs nested to the left, a
continuation waits for each element after it; nested to the right only one does, and none for the
last element. So nested to the right a chain needs at most one more place than its deepest element,
and nested to the left a chain of leaves needs as many places as it has joins. -/
theorem chain_nesting (first : Element Base σ ρ) (rest : List (Element Base σ ρ)) :
    let left := first.nestedLeft rest
    let right := first.nestedRight rest
    left.1 = right.1 ∧
    Prod.fst <$> (Machine.start left.2.graph).drive =
      Prod.fst <$> (Machine.start right.2.graph).drive ∧
    (∀ before value stats after, left.2.graph.Finishes before value stats after ↔
      ∃ sizes, InTurn (first :: rest) before sizes value after ∧
        stats.steps = rest.length + RunStats.totalSteps sizes ∧
        IsGreatest {depth | ∃ number size, sizes[number]? = some size ∧
          depth = (rest.length - number) + size.peakStackDepth} stats.peakStackDepth) ∧
    (∀ before value stats after, right.2.graph.Finishes before value stats after ↔
      ∃ sizes, InTurn (first :: rest) before sizes value after ∧
        stats.steps = rest.length + RunStats.totalSteps sizes ∧
        IsGreatest {depth | ∃ number size, sizes[number]? = some size ∧
          depth = min (rest.length - number) 1 + size.peakStackDepth} stats.peakStackDepth) ∧
    (∀ before value stats after, right.2.graph.Finishes before value stats after →
      ∃ sizes, InTurn (first :: rest) before sizes value after ∧
        ∃ size ∈ sizes, stats.peakStackDepth ≤ size.peakStackDepth + 1) ∧
    ((∀ element ∈ first :: rest, ∃ produce, element.2.graph.shape = .leaf produce) →
      ∀ before value stats after, left.2.graph.Finishes before value stats after →
        stats.peakStackDepth = rest.length) := by
  intro left right
  refine ⟨type_nested first rest, ?_, ?_, ?_, ?_, ?_⟩
  · rw [Machine.drive_start, Machine.drive_start, Graph.fst_measured, Graph.fst_measured]
    exact eval_nested first rest
  · intro before value stats after
    exact nestedLeft_finishes_iff.trans
      (exists_sizes_iff RunStats.steps_nestedLeft RunStats.peak_nestedLeft)
  · intro before value stats after
    exact nestedRight_finishes_iff.trans
      (exists_sizes_iff RunStats.steps_nestedRight RunStats.peak_nestedRight)
  · intro before value stats after finishes
    rcases (nestedRight_finishes_iff.trans
      (exists_sizes_iff RunStats.steps_nestedRight RunStats.peak_nestedRight)).mp finishes with
      ⟨sizes, inTurn, _, ⟨number, size, size_eq, peak_eq⟩, _⟩
    refine ⟨sizes, inTurn, size, List.mem_of_getElem? size_eq, ?_⟩
    omega
  · intro leaves before value stats after finishes
    rcases (nestedLeft_finishes_iff.trans
      (exists_sizes_iff RunStats.steps_nestedLeft RunStats.peak_nestedLeft)).mp finishes with
      ⟨sizes, inTurn, _, ⟨number, size, size_eq, peak_eq⟩, bounded⟩
    have flat := inTurn.peak_eq_zero leaves
    have length_eq := inTurn.length_eq
    rcases sizes with _ | ⟨first_size, sizes⟩
    · simp at length_eq
    · have least := bounded ⟨0, first_size, rfl, rfl⟩
      have size_flat := flat size (List.mem_of_getElem? size_eq)
      omega

end Element

end Deferral

import Deferral.Proofs.Stored.Report

/-!
# What is read from a stored text

What is written for data is read back, so data that differs is written as texts that differ. But a
text need not have been written by the program: options may be given as any object with any of their
fields, in any order and between whatever else, or as a list of the first of them, and statistics as
any object with both of theirs.
-/

namespace Deferral

namespace Json

/-- The text of an object as a whole. -/
structure WholeObject where
  members : List Member
  before : List Char := []
  blanks : List Char := []
  behind : List Char := []
  before_blank : Blanks before := by exact .nil
  blank : Blanks blanks := by exact .nil
  behind_blank : Blanks behind := by exact .nil

/-- The text of an object with the blanks around it. -/
def WholeObject.text (object : WholeObject) : String :=
  .ofList (object.before ++ (objectText object.blanks object.members ++ object.behind))

/-- The text of a list as a whole. -/
structure WholeList where
  elements : List Element
  before : List Char := []
  blanks : List Char := []
  behind : List Char := []
  before_blank : Blanks before := by exact .nil
  blank : Blanks blanks := by exact .nil
  behind_blank : Blanks behind := by exact .nil

/-- The text of a list with the blanks around it. -/
def WholeList.text (list : WholeList) : String :=
  .ofList (list.before ++ (listText list.blanks list.elements ++ list.behind))

end Json

namespace Stored

open Json

/-- Options, statistics and outcomes are read back from what is written for them, and whatever
differs is written as texts that differ. The counters of statistics are 64-bit numbers. -/
theorem public_data_read_back :
    (∀ options : RunOptions, ofText (toText options) = .ok options) ∧
    (∀ steps peak : UInt64,
      ofText (toText (RunStats.mk steps.toNat peak.toNat)) =
        .ok (RunStats.mk steps.toNat peak.toNat)) ∧
    (∀ outcome : Outcome String Int64, ofText (toText outcome) = .ok outcome) ∧
    (∀ outcome : Outcome (List String) (Outcome Unit (Option Bool)),
      ofText (toText outcome) = .ok outcome) ∧
    Function.Injective (toText : RunOptions → String) ∧
    Function.Injective (fun counters : UInt64 × UInt64 =>
      toText (RunStats.mk counters.1.toNat counters.2.toNat)) ∧
    Function.Injective (toText : Outcome String Int64 → String) ∧
    Function.Injective (toText : Outcome (List String) (Outcome Unit (Option Bool)) → String) := by
  refine ⟨ofText_toText, fun steps peak => (RunStats.kept steps peak).ofText_toText, ofText_toText,
    ofText_toText, toText_injective, ?_, toText_injective, toText_injective⟩
  intro counters others same
  have stats_eq := (RunStats.kept _ _).eq_of_toText_eq (RunStats.kept _ _) same
  rw [RunStats.mk.injEq, UInt64.toNat_inj, UInt64.toNat_inj] at stats_eq
  exact Prod.ext stats_eq.1 stats_eq.2

section Texts

variable {α : Type} [Stored α] {value : α} {wrong : ReadError → Prop}

theorem ofText_object (object : WholeObject)
    (gets : ∀ steps, 2 * (objectText object.blanks object.members).length ≤ steps →
      Gets (read steps) (objectText object.blanks object.members) value) :
    ofText object.text = .ok value :=
  ofText_of_gets object.before_blank object.behind_blank (gets _ (by simp [stepsFor]; omega))

theorem ofText_list (list : WholeList)
    (gets : ∀ steps, Gets (read steps) (listText list.blanks list.elements) value) :
    ofText list.text = .ok value :=
  ofText_of_gets list.before_blank list.behind_blank (gets _)

theorem ofText_object_error (object : WholeObject)
    (refuses : ∀ steps, 2 * (objectText object.blanks object.members).length ≤ steps →
      Refuses (read steps : Read α)
        (object.before ++ (objectText object.blanks object.members ++ object.behind)) wrong) :
    ∃ error, wrong error ∧ (ofText object.text : Except ReadError α) = .error error :=
  ofText_of_refuses (refuses _ (by simp [stepsFor]; omega))

end Texts

end Stored

open Json Stored

namespace RunOptions

variable {object : WholeObject} {list : WholeList} {limit? : Option (Option UInt64)}
  {capacity? : Option UInt64} {limit : Option UInt64} {capacity : UInt64}

/-- An object in which each field comes at most once is read as its fields over the default options,
whatever else there is. -/
theorem ofText_members (limits : valuesOf "step_limit" object.members = limit?.toList.map limitText)
    (capacities : valuesOf "stack_capacity" object.members = capacity?.toList.map digitsText) :
    ofText object.text = .ok (overDefault limit? capacity?) :=
  ofText_object object fun _ enough =>
    record.gets_object (gathers limits capacities) (complete_eq _ _) object.blank enough

/-- The empty list is read as the default options. -/
theorem ofText_nil (elements_eq : list.elements = []) :
    ofText list.text = .ok (overDefault none none) :=
  ofText_list list fun steps => elements_eq ▸ gets_nil list.blank steps

theorem ofText_limit (values : list.elements.map Element.value = [limitText limit]) :
    ofText list.text = .ok (overDefault (some limit) none) := by
  rcases List.map_eq_singleton_iff.mp values with ⟨element, elements_eq, is_limit⟩
  exact ofText_list list fun steps => elements_eq ▸ gets_limit list.blank is_limit steps

theorem ofText_both
    (values : list.elements.map Element.value = [limitText limit, digitsText capacity]) :
    ofText list.text = .ok (overDefault (some limit) (some capacity)) := by
  rcases List.map_eq_cons_iff.mp values with ⟨element, elements, elements_eq, is_limit, values⟩
  rcases List.map_eq_singleton_iff.mp values with ⟨element', rfl, is_capacity⟩
  exact ofText_list list fun steps => elements_eq ▸ gets_both list.blank is_limit is_capacity steps

/-- An object in which a field comes twice is an error, whatever the values of its members. -/
theorem ofText_twice {name : String} (known : name = "step_limit" ∨ name = "stack_capacity")
    (twice : 2 ≤ (valuesOf name object.members).length) :
    ∃ error, (ofText object.text : Except ReadError RunOptions) = .error error := by
  rw [length_valuesOf] at twice
  have found : ∃ field, record.fields.find? (·.name = name) = some field := by
    rcases known with rfl | rfl
    · exact ⟨_, slots.find_first rfl⟩
    · exact ⟨_, slots.find_second rfl⟩
  rcases found with ⟨field, found⟩
  have refused := ofText_object_error object fun steps enough =>
    Record.refuses_twice slots.marking found twice object.blank enough object.before_blank
      object.behind
  rcases refused with ⟨error, _, is_error⟩
  exact ⟨error, is_error⟩

/-- If what stands in front of a field that comes again is right, then the error names the field. -/
theorem ofText_again {front behind : List Member} {again : Member}
    (members_eq : object.members = front ++ again :: behind)
    (limits : valuesOf "step_limit" front = limit?.toList.map limitText)
    (capacities : valuesOf "stack_capacity" front = capacity?.toList.map digitsText)
    (known : again.name = "step_limit" ∧ limit?.isSome ∨
      again.name = "stack_capacity" ∧ capacity?.isSome) :
    (ofText object.text : Except ReadError RunOptions) = .error (.duplicateField again.name) := by
  have found : ∃ field, record.fields.find? (·.name = again.name) = some field ∧
      field.isSet ⟨limit?, capacity?⟩ = true := by
    rcases known with ⟨is_limit, set⟩ | ⟨is_capacity, set⟩
    · exact ⟨_, slots.find_first is_limit, set⟩
    · exact ⟨_, slots.find_second is_capacity, set⟩
  rcases found with ⟨field, found, set⟩
  have refused := ofText_object_error object fun steps enough => by
    rw [members_eq] at enough ⊢
    exact Record.refuses_again (gathers limits capacities) found set object.blank enough
      object.before_blank object.behind
  rcases refused with ⟨_, rfl, is_error⟩
  exact is_error

end RunOptions

namespace RunStats

variable {object : WholeObject} {steps? peak? : Option UInt64}

/-- An object is read as statistics if both fields come; if not, the error names the first that is
missing. -/
theorem ofText_members
    (steps_values : valuesOf "steps" object.members = steps?.toList.map digitsText)
    (peak_values : valuesOf "peak_stack_depth" object.members = peak?.toList.map digitsText) :
    ofText object.text =
      match steps?, peak? with
      | some steps, some peak => .ok (RunStats.mk steps.toNat peak.toNat)
      | none, _ => .error (.missingField "steps")
      | some _, none => .error (.missingField "peak_stack_depth") := by
  have gathers := gathers steps_values peak_values
  have missing {name : String}
      (incomplete : record.complete ⟨steps?.map UInt64.toNat, peak?.map UInt64.toNat⟩ =
        .error name) :
      (ofText object.text : Except ReadError RunStats) = .error (.missingField name) := by
    have refused := ofText_object_error object fun steps enough =>
      Record.refuses_incomplete gathers incomplete object.blank enough object.before_blank
        object.behind
    rcases refused with ⟨_, rfl, is_error⟩
    exact is_error
  match steps?, peak? with
  | some steps, some peak =>
      exact ofText_object object fun _ enough =>
        record.gets_object gathers rfl object.blank enough
  | none, _ => exact missing rfl
  | some _, none => exact missing rfl

end RunStats

namespace Stored

/-- Options are their known fields over the default ones, in an object with whatever else, in
whatever order, and in a list of the first of them; to repeat a field is an error. Statistics are
read if and only if both fields are there, and if not the error names the first that is missing. -/
theorem configuration_over_default :
    (∀ (object : WholeObject) (limit? : Option (Option UInt64)) (capacity? : Option UInt64),
      valuesOf "step_limit" object.members = limit?.toList.map limitText →
      valuesOf "stack_capacity" object.members = capacity?.toList.map digitsText →
      ofText object.text = .ok (RunOptions.overDefault limit? capacity?)) ∧
    (∀ (list : WholeList) (limit : Option UInt64) (capacity : UInt64),
      (list.elements = [] → ofText list.text = .ok (RunOptions.overDefault none none)) ∧
      (list.elements.map Element.value = [limitText limit] →
        ofText list.text = .ok (RunOptions.overDefault (some limit) none)) ∧
      (list.elements.map Element.value = [limitText limit, digitsText capacity] →
        ofText list.text = .ok (RunOptions.overDefault (some limit) (some capacity)))) ∧
    (∀ (object : WholeObject) (name : String), name = "step_limit" ∨ name = "stack_capacity" →
      2 ≤ (valuesOf name object.members).length →
      ∃ error, (ofText object.text : Except ReadError RunOptions) = .error error) ∧
    (∀ (object : WholeObject) (steps? peak? : Option UInt64),
      valuesOf "steps" object.members = steps?.toList.map digitsText →
      valuesOf "peak_stack_depth" object.members = peak?.toList.map digitsText →
      ofText object.text =
        match steps?, peak? with
        | some steps, some peak => .ok (RunStats.mk steps.toNat peak.toNat)
        | none, _ => .error (.missingField "steps")
        | some _, none => .error (.missingField "peak_stack_depth")) :=
  ⟨fun _ _ _ => RunOptions.ofText_members,
    fun _ _ _ => ⟨RunOptions.ofText_nil, RunOptions.ofText_limit, RunOptions.ofText_both⟩,
    fun _ _ => RunOptions.ofText_twice,
    fun _ _ _ => RunStats.ofText_members⟩

/-- A member that holds a natural number. -/
def numberMember (name : String) (value : UInt64) : Member where
  name := name
  key := name.toList.flatMap writeChar
  value := digitsText value
  spells := spells_flatMap_writeChar _
  wellFormed := wellFormed_digitsText value

theorem some_configurations_read :
    ofText "\x7b\"other\":1,\"stack_capacity\":7\x7d" =
      .ok (RunOptions.mk none 7) ∧
    ofText "[null,7]" = .ok (RunOptions.mk none 7) ∧
    (∃ error, (ofText "\x7b\"step_limit\":1,\"step_limit\":2\x7d" : Except ReadError RunOptions) =
      .error error) ∧
    (ofText "\x7b\"steps\":3\x7d" : Except ReadError RunStats) =
      .error (.missingField "peak_stack_depth") := by
  refine ⟨?_, ?_, ?_, ?_⟩
  · exact configuration_over_default.1
      { members := [numberMember "other" 1, numberMember "stack_capacity" 7] } none (some 7) rfl rfl
  · exact (configuration_over_default.2.1
      { elements := [⟨limitText none, [], [], .null, .nil, .nil⟩,
        ⟨digitsText 7, [], [], wellFormed_digitsText 7, .nil, .nil⟩] } none 7).2.2 rfl
  · exact configuration_over_default.2.2.1
      { members := [numberMember "step_limit" 1, numberMember "step_limit" 2] } "step_limit"
      (.inl rfl) (by decide)
  · exact configuration_over_default.2.2.2 { members := [numberMember "steps" 3] }
      (some 3) none rfl rfl

end Stored

end Deferral

import Deferral.Proofs.Stored.Fields
import Deferral.Proofs.Stored.Kept
import Deferral.Stored.Report

/-!
# Stored options and statistics

Options and statistics are records of two fields each. What is stored of them is read back, in
whatever order the fields come and whatever else there is. They differ in what becomes of a field
that does not come.
-/

namespace Deferral

open Json Stored

namespace Stored

/-- The digits of a natural number. -/
def digitsText (value : UInt64) : List Char := (toString value.toNat).toList

/-- The text of a limit, which may be none. -/
def limitText (limit : Option UInt64) : List Char := limit.elim ['n', 'u', 'l', 'l'] digitsText

theorem wellFormed_digitsText (value : UInt64) : WellFormed (digitsText value) :=
  .numeral (numeral_toString_nat _)

theorem wellFormed_limitText (limit : Option UInt64) : WellFormed (limitText limit) := by
  cases limit with
  | none => exact .null
  | some limit => exact wellFormed_digitsText limit

/-- A limit is got back, since what begins with a digit is not nothing. -/
theorem gets_limit (expected : String) (limit : Option UInt64) :
    Gets (Read.option (Read.unsigned expected)) (limitText limit) limit := by
  cases limit with
  | none => exact Read.gets_none _
  | some limit =>
      refine Read.gets_some (Read.gets_unsigned expected limit) ?_
      rcases (numeral_toString_nat limit.toNat).exists_cons with ⟨first, more, text_eq, start⟩
      refine ⟨first, more, text_eq, isBlank_of_start start, ?_⟩
      rintro rfl
      simp at start

variable {γ : Type}

/-- A field that holds a natural number. -/
def unsignedSlot (name expected : String) (isSet : γ → Bool) (put : UInt64 → γ → γ)
    (isSet_put : ∀ value sofar, isSet (put value sofar) = true) : Slot γ UInt64 where
  field := {
    name
    isSet
    read := do
      let value ← Read.unsigned expected
      return put value }
  reader := Read.unsigned expected
  put := put
  text := digitsText
  read_eq := rfl
  isSet_put := isSet_put
  wellFormed := wellFormed_digitsText
  gets := Read.gets_unsigned expected
  settles _ wellFormed _ _ blank ends := Read.settles_integer expected _ wellFormed blank ends

end Stored

namespace RunOptions

/-- Where the step limit is stored, which may be `null`. -/
def limitSlot : Slot Given (Option UInt64) where
  field := {
    name := "step_limit"
    isSet := fun given => given.stepLimit.isSome
    read := do
      let limit ← Read.option (Read.unsigned "u64")
      return fun given => { given with stepLimit := some limit } }
  reader := Read.option (Read.unsigned "u64")
  put := fun limit given => { given with stepLimit := some limit }
  text := limitText
  read_eq := rfl
  isSet_put _ _ := rfl
  wellFormed := wellFormed_limitText
  gets := gets_limit "u64"
  settles _ wellFormed _ _ blank ends :=
    Read.settles_option wellFormed (Read.settles_integer "u64" _ wellFormed .nil ends) blank

/-- Where the capacity of the stack is stored. -/
def capacitySlot : Slot Given UInt64 :=
  unsignedSlot "stack_capacity" "usize" (fun given => given.stackCapacity.isSome)
    (fun capacity given => { given with stackCapacity := some capacity }) fun _ _ => rfl

theorem slots : TwoSlots record limitSlot capacitySlot where
  fields_eq := rfl
  names_ne := by decide
  comm _ _ _ := rfl
  first_isSet _ _ := rfl
  second_isSet _ _ := rfl

/-- The fields that come, over the default options. -/
def overDefault (limit? : Option (Option UInt64)) (capacity? : Option UInt64) : RunOptions where
  stepLimit := limit?.getD unbounded.stepLimit
  stackCapacity := capacity?.getD unbounded.stackCapacity

/-- Members among which each field comes at most once gather what comes of the fields. -/
theorem gathers {members : List Member} {limit? : Option (Option UInt64)}
    {capacity? : Option UInt64}
    (limits : valuesOf "step_limit" members = limit?.toList.map limitText)
    (capacities : valuesOf "stack_capacity" members = capacity?.toList.map digitsText) :
    Record.Gathers record {} members ⟨limit?, capacity?⟩ := by
  have unset : limitSlot.field.isSet {} = false := rfl
  have unset' : capacitySlot.field.isSet {} = false := rfl
  have gathers := slots.gathers limits capacities (fun _ => unset) (fun _ => unset')
  cases limit? <;> cases capacity? <;> exact gathers

theorem complete_eq (limit? : Option (Option UInt64)) (capacity? : Option UInt64) :
    record.complete ⟨limit?, capacity?⟩ = .ok (overDefault limit? capacity?) :=
  rfl

section Lists

variable {blanks : List Char} {element element' : Element} {limit : Option UInt64}
  {capacity : UInt64}

theorem gets_nil (blank : Blanks blanks) (steps : Nat) :
    Gets (record.read steps) (listText blanks []) (overDefault none none) :=
  record.gets_elements (.nil _ _) (complete_eq none none) blank steps

theorem gets_limit (blank : Blanks blanks) (is_limit : element.value = limitText limit)
    (steps : Nat) :
    Gets (record.read steps) (listText blanks [element]) (overDefault (some limit) none) :=
  record.gets_elements (.cons (limitSlot.gets_field is_limit) (.nil _ _))
    (complete_eq (some limit) none) blank steps

theorem gets_both (blank : Blanks blanks) (is_limit : element.value = limitText limit)
    (is_capacity : element'.value = digitsText capacity) (steps : Nat) :
    Gets (record.read steps) (listText blanks [element, element'])
      (overDefault (some limit) (some capacity)) :=
  record.gets_elements
    (.cons (limitSlot.gets_field is_limit) (.cons (capacitySlot.gets_field is_capacity) (.nil _ _)))
    (complete_eq (some limit) (some capacity)) blank steps

end Lists

/-- Options are got back from what is written for them. -/
instance : Keeping RunOptions where
  kept options := by
    have limit_text : (write ((options.stepLimit.map fun limit => .number (.natural limit)).getD
        .null)).toList = limitText options.stepLimit := by
      cases options.stepLimit with
      | none => rfl
      | some limit => rfl
    let limit : Named := ⟨("step_limit", _), limit_text ▸ wellFormed_limitText options.stepLimit⟩
    let capacity : Named :=
      ⟨("stack_capacity", .number (.natural options.stackCapacity)), wellFormed_digitsText _⟩
    have text_eq : (toText options).toList = objectText [] [limit.member, capacity.member] :=
      toList_write_object [limit, capacity]
    have gathered : Record.Gathers record {} [limit.member, capacity.member]
        ⟨some options.stepLimit, some options.stackCapacity⟩ :=
      gathers (congrArg (fun text => [text]) limit_text) rfl
    refine ⟨text_eq ▸ wellFormed_objectText .nil _, fun steps enough => ?_⟩
    rw [text_eq] at enough ⊢
    exact record.gets_object gathered (complete_eq _ _) .nil enough

end RunOptions

namespace RunStats

/-- Where the number of steps is stored. -/
def stepsSlot : Slot Given UInt64 :=
  unsignedSlot "steps" "u64" (fun given => given.steps.isSome)
    (fun steps given => { given with steps := some steps.toNat }) fun _ _ => rfl

/-- Where the peak of the stack is stored. -/
def peakSlot : Slot Given UInt64 :=
  unsignedSlot "peak_stack_depth" "usize" (fun given => given.peakStackDepth.isSome)
    (fun peak given => { given with peakStackDepth := some peak.toNat }) fun _ _ => rfl

theorem slots : TwoSlots record stepsSlot peakSlot where
  fields_eq := rfl
  names_ne := by decide
  comm _ _ _ := rfl
  first_isSet _ _ := rfl
  second_isSet _ _ := rfl

/-- Members among which each field comes at most once gather what comes of the fields. -/
theorem gathers {members : List Member} {steps? peak? : Option UInt64}
    (steps_values : valuesOf "steps" members = steps?.toList.map digitsText)
    (peak_values : valuesOf "peak_stack_depth" members = peak?.toList.map digitsText) :
    Record.Gathers record {} members ⟨steps?.map UInt64.toNat, peak?.map UInt64.toNat⟩ := by
  have unset : stepsSlot.field.isSet {} = false := rfl
  have unset' : peakSlot.field.isSet {} = false := rfl
  have gathers := slots.gathers steps_values peak_values (fun _ => unset) (fun _ => unset')
  cases steps? <;> cases peak? <;> exact gathers

/-- Statistics are got back from what is written for them. -/
theorem kept (count peak : UInt64) : Kept (⟨count.toNat, peak.toNat⟩ : RunStats) := by
  have digits_text (value : UInt64) :
      (write (.number (.natural (.ofNat value.toNat)))).toList = digitsText value := by
    rw [UInt64.ofNat_toNat]
    rfl
  let steps : Named :=
    ⟨("steps", .number (.natural (.ofNat count.toNat))),
      digits_text count ▸ wellFormed_digitsText count⟩
  let depth : Named :=
    ⟨("peak_stack_depth", .number (.natural (.ofNat peak.toNat))),
      digits_text peak ▸ wellFormed_digitsText peak⟩
  have text_eq : (toText (⟨count.toNat, peak.toNat⟩ : RunStats)).toList =
      objectText [] [steps.member, depth.member] :=
    toList_write_object [steps, depth]
  have gathered : Record.Gathers record {} [steps.member, depth.member]
      ⟨(some count).map UInt64.toNat, (some peak).map UInt64.toNat⟩ :=
    gathers (congrArg (fun text => [text]) (digits_text count))
      (congrArg (fun text => [text]) (digits_text peak))
  refine ⟨text_eq ▸ wellFormed_objectText .nil _, fun steps enough => ?_⟩
  rw [text_eq] at enough ⊢
  exact record.gets_object gathered rfl .nil enough

end RunStats

end Deferral

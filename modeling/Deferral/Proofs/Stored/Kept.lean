import Deferral.Proofs.Stored.Values
import Deferral.Outcome.Basic
import Mathlib.Data.List.Forall2

/-!
# Stored values are kept

A text that is written for a value is well formed and the value is got back from it. This is so for
values that are made of others if it is so for these, with one exception: nothing is told apart from
something only by its text, so something must not be written as nothing is.
-/

namespace Deferral

namespace Json

theorem writeItems_eq (items : List Json) : writeItems items = items.map write := by
  induction items with
  | nil => rfl
  | cons item items ih => rw [writeItems, List.map_cons, ih]

theorem writeMembers_eq (members : List (String × Json)) :
    writeMembers members =
      members.map fun member => writeText member.1 ++ ":" ++ write member.2 := by
  induction members with
  | nil => rfl
  | cons member members ih => rw [writeMembers, List.map_cons, ih]

/-- A value whose text is well formed. -/
abbrev Unnamed := { value : Json // WellFormed (write value).toList }

/-- A value as an element of a list, without blanks. -/
def Unnamed.element (unnamed : Unnamed) : Element where
  value := (write unnamed.1).toList
  wellFormed := unnamed.2

/-- A name and a value whose text is well formed. -/
abbrev Named := { member : String × Json // WellFormed (write member.2).toList }

/-- A name and a value as a member of an object, without blanks. -/
def Named.member (named : Named) : Member where
  name := named.1.1
  key := named.1.1.toList.flatMap writeChar
  value := (write named.1.2).toList
  spells := spells_flatMap_writeChar _
  wellFormed := named.2

theorem toList_write_array (values : List Unnamed) :
    (write (.array (values.map (·.1)))).toList = listText [] (values.map Unnamed.element) := by
  have texts_eq : ((values.map Unnamed.element).map Element.item).map Item.text =
      values.map fun unnamed => (write unnamed.1).toList := by
    simp [Unnamed.element, Element.item, Item.text, Function.comp_def]
  rw [write, writeItems_eq, listText, itemsText, texts_eq]
  simp [String.toList_intercalate, Bracket.closing, Function.comp_def]

theorem toList_write_object (members : List Named) :
    (write (.object (members.map (·.1)))).toList = objectText [] (members.map Named.member) := by
  have texts_eq : ((members.map Named.member).map Member.item).map Item.text =
      members.map fun named => (writeText named.1.1 ++ ":" ++ write named.1.2).toList := by
    simp [Named.member, Member.item, Member.label, Item.text, writeText, Function.comp_def]
  rw [write, writeMembers_eq, objectText, itemsText, texts_eq]
  simp [String.toList_intercalate, Bracket.closing, Function.comp_def]

theorem wellFormed_write_null : WellFormed (write .null).toList := .null

theorem wellFormed_write_string (text : String) : WellFormed (write (.string text)).toList := by
  rw [write, writeText, String.toList_ofList]
  exact .quoted (spells_flatMap_writeChar _).quoted

theorem wellFormed_write_object (members : List Named) :
    WellFormed (write (.object (members.map (·.1)))).toList := by
  rw [toList_write_object]
  exact wellFormed_objectText .nil _

end Json

namespace Stored

open Json

variable {ε α : Type}

section Texts

variable [Stored α] {before written behind : List Char} {value : α}

/-- The steps provided for are twice the length of the text, and two. -/
abbrev stepsFor (text : List Char) : Nat := 2 * text.length + 2

/-- A value that is got from a text between blanks is what the text as a whole is read as. -/
theorem ofText_of_gets (before_blank : Blanks before) (behind_blank : Blanks behind)
    (gets : Gets (read (stepsFor (before ++ (written ++ behind)))) written value) :
    ofText (String.ofList (before ++ (written ++ behind))) = .ok value := by
  have ends : Ends behind := by simpa using Ends.nil.behind behind_blank
  have finished : Reads Scan.finish behind () [] := by
    have skipped := Scan.reads_skipBlanks behind_blank (show Solid [] by simp [Solid])
    rw [List.append_nil] at skipped
    exact skipped.bind (.pure _ _)
  have reads : Reads (do
      let value ← read (α := α) (stepsFor (before ++ (written ++ behind)))
      Scan.finish
      return value : Read α) (before ++ (written ++ behind)) value [] :=
    (gets before behind before_blank ends).bind ((reads_lift finished).bind (.pure _ _))
  rcases reads 0 with ⟨offset, read⟩
  simp only [ofText, Cursor.start, String.toList_ofList, String.length_ofList]
  rw [read]
  rfl

/-- A text that is refused is an error. -/
theorem ofText_of_refuses {text : List Char} {wrong : ReadError → Prop}
    (refuses : Refuses (read (stepsFor text) : Read α) text wrong) :
    ∃ error, wrong error ∧ (ofText (String.ofList text) : Except ReadError α) = .error error := by
  have refused : Refuses (do
      let value ← read (stepsFor text)
      Scan.finish
      return value : Read α) text wrong :=
    refuses.bind
  rcases refused 0 with ⟨error, kind, read⟩
  refine ⟨error, kind, ?_⟩
  simp only [ofText, Cursor.start, String.toList_ofList, String.length_ofList]
  rw [read]
  rfl

end Texts

/-- A value is got back from the text that is written for it. -/
structure Kept [Stored α] (value : α) : Prop where
  wellFormed : WellFormed (toText value).toList
  gets : ∀ steps, 2 * (toText value).toList.length ≤ steps →
    Gets (read steps) (toText value).toList value

theorem Kept.ofText_toText [Stored α] {value : α} (kept : Kept value) :
    ofText (toText value) = .ok value := by
  have gets := ofText_of_gets .nil .nil (kept.gets (stepsFor ([] ++ ((toText value).toList ++ [])))
    (by simp [stepsFor]))
  rwa [List.nil_append, List.append_nil, String.ofList_toList] at gets

theorem Kept.eq_of_toText_eq [Stored α] {value other : α} (kept : Kept value) (kept' : Kept other)
    (same : toText value = toText other) : value = other := by
  have read := kept.ofText_toText
  rw [same, kept'.ofText_toText] at read
  exact (Except.ok.inj read).symm

/-- Every value is got back from the text that is written for it. -/
class Keeping (α : Type) [Stored α] : Prop where
  kept : ∀ value : α, Kept value

/-- No value is written as nothing is. -/
class Something (α : Type) [Stored α] : Prop where
  starts : ∀ value : α, ∃ first more, (toText value).toList = first :: more ∧
    Scan.isBlank first = false ∧ first ≠ 'n'

theorem ofText_toText [Stored α] [Keeping α] (value : α) : ofText (toText value) = .ok value :=
  (Keeping.kept value).ofText_toText

/-- Values that differ are written as texts that differ. -/
theorem toText_injective [Stored α] [Keeping α] : Function.Injective (toText : α → String) :=
  fun value other same => (Keeping.kept value).eq_of_toText_eq (Keeping.kept other) same

section Instances

instance : Keeping String where
  kept text := ⟨wellFormed_write_string text, fun _ _ => Read.gets_string text⟩

instance : Keeping Int64 where
  kept value := by
    refine ⟨.numeral ?_, fun _ _ => Read.gets_signed value⟩
    show Numeral (writeNumber (.ofInt64 value)).toList
    rw [JsonNumber.ofInt64]
    split
    · exact numeral_toString_int _
    · exact numeral_toString_nat _

instance : Keeping Bool where
  kept flag := by
    refine ⟨?_, fun _ _ => Read.gets_boolean flag⟩
    cases flag with
    | true => exact .isTrue
    | false => exact .isFalse

instance : Something Bool where
  starts flag := by
    cases flag with
    | true | false => exact ⟨_, _, rfl, by decide, by decide⟩

instance : Keeping Unit where
  kept _ := ⟨wellFormed_write_null, fun _ _ => Read.gets_unit⟩

instance [Stored α] [Keeping α] [Something α] : Keeping (Option α) where
  kept
    | none => ⟨wellFormed_write_null, fun _ _ => Read.gets_none _⟩
    | some value =>
      ⟨(Keeping.kept value).wellFormed, fun steps enough =>
        Read.gets_some ((Keeping.kept value).gets steps enough) (Something.starts value)⟩

instance [Stored α] [Keeping α] : Keeping (List α) where
  kept values := by
    let unnamed (value : α) : Unnamed := ⟨toJson value, (Keeping.kept value).wellFormed⟩
    have json_eq : toJson values = .array ((values.map unnamed).map (·.1)) := by
      simp [toJson, unnamed]
    have text_eq : (toText values).toList =
        listText [] ((values.map unnamed).map Unnamed.element) := by
      rw [← toList_write_array, ← json_eq, toText]
    rw [List.map_map] at text_eq
    refine ⟨text_eq ▸ wellFormed_listText .nil _, fun steps enough => ?_⟩
    rw [text_eq, listText, List.length_cons, List.nil_append] at enough
    have length_le := length_le_itemsText .list
      ((values.map (Unnamed.element ∘ unnamed)).map Element.item)
    have gets : List.Forall₂ (fun element => Gets (read steps) element.value)
        (values.map (Unnamed.element ∘ unnamed)) values := by
      rw [List.forall₂_map_left_iff, List.forall₂_same]
      intro value mem
      have text_le := length_text_le .list true
        (List.mem_map_of_mem (f := Element.item)
          (List.mem_map_of_mem (f := Unnamed.element ∘ unnamed) mem))
      have value_le : (toText value).toList.length ≤
          ((Unnamed.element ∘ unnamed) value).item.text.length := by
        simp [Item.text, Element.item, Unnamed.element, unnamed, toText]
      rw [remaining, if_pos rfl] at text_le
      exact (Keeping.kept value).gets steps (by omega)
    rw [text_eq]
    exact Read.gets_list gets .nil (by rw [List.length_map] at length_le; omega)

/-- A variant is written as its name with its value, which is read by the reader of that name. -/
theorem gets_variant_written [Stored α] {β : Type} {variants : List (String × Read β)}
    {name : String} {value : α} (kept : Kept value) {function : α → β} {steps : Nat}
    (found : variants.lookup name = some (do return function (← read steps)))
    (enough : 2 * (write (.object [(name, toJson value)])).toList.length ≤ steps) :
    Gets (Read.variant variants) (write (.object [(name, toJson value)])).toList
      (function value) := by
  let named : Named := ⟨(name, toJson value), kept.wellFormed⟩
  have text_eq : (write (.object [(name, toJson value)])).toList = objectText [] [named.member] :=
    toList_write_object [named]
  have value_le : (toText value).toList.length ≤ (objectText [] [named.member]).length := by
    show named.member.value.length ≤ _
    simp only [objectText, itemsText_cons, List.map_cons, Member.item, Item.text, List.length_cons,
      List.length_append]
    omega
  rw [text_eq] at enough ⊢
  exact Read.gets_variant .nil named.member found
    ((kept.gets steps (by omega)).map function)

instance [Stored ε] [Stored α] [Keeping ε] [Keeping α] : Keeping (Outcome ε α) where
  kept
    | .failure reason =>
      ⟨wellFormed_write_object [⟨("Failure", toJson reason), (Keeping.kept reason).wellFormed⟩],
        fun _ enough => gets_variant_written (Keeping.kept reason) rfl enough⟩
    | .success value =>
      ⟨wellFormed_write_object [⟨("Success", toJson value), (Keeping.kept value).wellFormed⟩],
        fun _ enough => gets_variant_written (Keeping.kept value) rfl enough⟩

end Instances

end Stored

end Deferral

import Deferral.Proofs.Stored.Members

/-!
# Records of two fields

The data of a field is got by a reader and put into what has been gathered. For two fields that do
not interfere with each other the order in which they come does not matter, nor does what comes
between them. Of the readers that are used it is enough to know that they are done with a
well-formed value when they have gone past it, whether the value is of the right type or not.
-/

namespace Deferral.Stored

open Json

namespace Read

variable {α : Type} {written before rest : List Char}

/-- What is not expected is an error, whatever stands there. -/
theorem refuses_unexpected (char : Char) (expected : String) (text : List Char) :
    Refuses (unexpected char expected : Read α) text fun _ => True := by
  have thrown (error : ReadError) (text : List Char) :
      Refuses (throw error : Read α) text fun _ => True :=
    (refuses_throw error text).anyhow
  unfold unexpected
  split
  · exact refuses_bind (fun _ => refuses_bind fun _ => thrown _) _
  · exact refuses_bind (fun _ => refuses_bind fun _ => thrown _) _
  · exact refuses_bind (fun _ => refuses_bind fun _ => thrown _) _
  · exact refuses_bind (fun _ => refuses_bind fun _ => thrown _) _
  · exact thrown _ _
  · exact thrown _ _
  · split
    · exact refuses_bind (fun _ => thrown _) _
    · exact refuses_lift (Scan.refuses_failNext _ _)

theorem settles_integer (expected : String) (accept : Int → Option α)
    (wellFormed : WellFormed written) (blank : Blanks before) (ends : Ends rest) :
    Settles (integer expected accept) (before ++ (written ++ rest)) rest := by
  rcases wellFormed.exists_cons with ⟨first, more, written_eq, solid, _⟩
  have begun : Reads begin (before ++ (written ++ rest)) first (written ++ rest) := by
    rw [written_eq]
    exact reads_begin blank solid _
  apply begun.leads.settles
  by_cases start : first = '-' ∨ first.isDigit = true
  · rw [if_pos start]
    have numeral : Numeral written := wellFormed.numeral_of_start written_eq start
    apply (settles_lift (Scan.settles_numeral numeral ends)).bind
    intro number
    split
    · split
      · exact (Reads.pure _ _).settles
      · exact (refuses_throw _ _).settles
    · exact (refuses_throw _ _).settles
  · rw [if_neg start]
    exact (refuses_unexpected _ _ _).settles

theorem settles_option {something : Read α} (wellFormed : WellFormed written)
    (settles : Settles something (written ++ rest) rest) (blank : Blanks before) :
    Settles (option something) (before ++ (written ++ rest)) rest := by
  rcases wellFormed.exists_cons with ⟨first, more, written_eq, solid, _⟩
  have begun : Reads Scan.skipBlanks (before ++ (written ++ rest)) (some first)
      (written ++ rest) := by
    rw [written_eq]
    exact Scan.reads_skipBlanks_cons blank solid _
  apply (reads_lift begun).leads.settles
  split
  · rename_i is_n
    cases is_n
    rw [wellFormed.null_of_start written_eq]
    apply (reads_lift (Scan.reads_advance _ _)).leads.settles
    apply (reads_lift (Scan.reads_letters _ _)).leads.settles
    exact (Reads.pure _ _).settles
  · exact settles.bind fun _ => (Reads.pure _ _).settles

end Read

/-- The values that are written for a name, in order. -/
def valuesOf (name : String) (members : List Member) : List (List Char) :=
  (members.filter (·.name = name)).map Member.value

theorem valuesOf_cons_self (member : Member) (members : List Member) :
    valuesOf member.name (member :: members) = member.value :: valuesOf member.name members := by
  simp [valuesOf]

theorem valuesOf_cons_of_ne {name : String} {member : Member} (other : member.name ≠ name)
    (members : List Member) : valuesOf name (member :: members) = valuesOf name members := by
  simp [valuesOf, other]

theorem length_valuesOf (name : String) (members : List Member) :
    (valuesOf name members).length = (members.map Member.name).count name := by
  induction members with
  | nil => rfl
  | cons member members ih =>
      by_cases is_name : member.name = name
      · subst is_name
        simp [valuesOf_cons_self, ih]
      · simp [valuesOf_cons_of_ne is_name, is_name, ih]

/-- A field whose data is got by a reader and put into what has been gathered. -/
structure Slot (γ β : Type) where
  field : Field γ
  reader : Read β
  put : β → γ → γ
  /-- The text from which data is got. -/
  text : β → List Char
  read_eq : field.read = do return put (← reader)
  isSet_put : ∀ value sofar, field.isSet (put value sofar) = true
  wellFormed : ∀ value, WellFormed (text value)
  gets : ∀ value, Gets reader (text value) value
  settles : ∀ written, WellFormed written → ∀ before rest, Blanks before → Ends rest →
    Settles reader (before ++ (written ++ rest)) rest

namespace Slot

variable {γ β : Type} (slot : Slot γ β)

/-- Put data if there is any. -/
def put? (data? : Option β) (sofar : γ) : γ := data?.elim sofar fun data => slot.put data sofar

theorem gets_field {value : β} {written : List Char} (is_text : written = slot.text value) :
    Gets slot.field.read written (slot.put value) := by
  rw [slot.read_eq, is_text]
  exact (slot.gets value).map slot.put

/-- Reading the field puts data into it or fails. -/
theorem marks_or_refuses {α : Type} {record : Record γ α}
    (kept : ∀ other ∈ record.fields, ∀ data sofar, other.isSet sofar = true →
      other.isSet (slot.put data sofar) = true)
    {written before rest : List Char} (wellFormed : WellFormed written) (blank : Blanks before)
    (ends : Ends rest) :
    (∃ set, Reads slot.field.read (before ++ (written ++ rest)) set rest ∧
      Record.Marks record slot.field set) ∨
      Refuses slot.field.read (before ++ (written ++ rest)) fun _ => True := by
  have settles := slot.settles written wellFormed before rest blank ends
  rw [slot.read_eq]
  rcases settles with ⟨data, reads⟩ | refuses
  · exact .inl ⟨slot.put data, reads.bind (.pure _ _), slot.isSet_put data,
      fun other mem sofar => kept other mem data sofar⟩
  · exact .inr refuses.bind

end Slot

/-- The two fields of a record. -/
structure TwoSlots {γ α β β' : Type} (record : Record γ α) (first : Slot γ β) (second : Slot γ β') :
    Prop where
  fields_eq : record.fields = [first.field, second.field]
  names_ne : first.field.name ≠ second.field.name
  comm : ∀ data data' sofar,
    first.put data (second.put data' sofar) = second.put data' (first.put data sofar)
  first_isSet : ∀ data sofar, first.field.isSet (second.put data sofar) = first.field.isSet sofar
  second_isSet : ∀ data sofar, second.field.isSet (first.put data sofar) = second.field.isSet sofar

namespace TwoSlots

variable {γ α β β' : Type} {record : Record γ α} {first : Slot γ β} {second : Slot γ β'}
  {members : List Member}

theorem find_first (slots : TwoSlots record first second)
    {name : String} (is_name : name = first.field.name) :
    record.fields.find? (·.name = name) = some first.field := by
  simp [slots.fields_eq, is_name]

theorem find_second (slots : TwoSlots record first second) {name : String}
    (is_name : name = second.field.name) :
    record.fields.find? (·.name = name) = some second.field := by
  simp [slots.fields_eq, is_name, slots.names_ne]

theorem find_none (slots : TwoSlots record first second) {name : String}
    (not_first : name ≠ first.field.name) (not_second : name ≠ second.field.name) :
    record.fields.find? (·.name = name) = none := by
  simp [slots.fields_eq, Ne.symm not_first, Ne.symm not_second]

/-- Members among which each field comes at most once, and with data of its own, gather this data.
-/
theorem gathers (slots : TwoSlots record first second)
    {data? : Option β} {data'? : Option β'} {sofar : γ}
    (values : valuesOf first.field.name members = data?.toList.map first.text)
    (values' : valuesOf second.field.name members = data'?.toList.map second.text)
    (unset : data?.isSome → first.field.isSet sofar = false)
    (unset' : data'?.isSome → second.field.isSet sofar = false) :
    Record.Gathers record sofar members (first.put? data? (second.put? data'? sofar)) := by
  induction members generalizing sofar data? data'? with
  | nil =>
      cases data? with
      | some data => cases values
      | none =>
          cases data'? with
          | some data => cases values'
          | none => exact .nil sofar
  | cons member members ih =>
      by_cases is_first : member.name = first.field.name
      · have not_second : member.name ≠ second.field.name := is_first ▸ slots.names_ne
        rw [← is_first, valuesOf_cons_self] at values
        rw [valuesOf_cons_of_ne not_second] at values'
        cases data? with
        | none => cases values
        | some data =>
            rcases List.cons_eq_cons.mp values with ⟨value_eq, values⟩
            rw [is_first] at values
            have takes := Record.Takes.field (slots.find_first is_first) (unset rfl)
              (first.gets_field value_eq)
            have others : Record.Gathers record (first.put data sofar) members
                (first.put? none (second.put? data'? (first.put data sofar))) :=
              ih values values' (by simp) (by simpa [slots.second_isSet] using unset')
            have put_eq : first.put? none (second.put? data'? (first.put data sofar)) =
                first.put? (some data) (second.put? data'? sofar) := by
              cases data'? with
              | none => rfl
              | some data' => exact (slots.comm data data' sofar).symm
            exact put_eq ▸ .cons takes others
      · rw [valuesOf_cons_of_ne is_first] at values
        by_cases is_second : member.name = second.field.name
        · rw [← is_second, valuesOf_cons_self] at values'
          cases data'? with
          | none => cases values'
          | some data' =>
              rcases List.cons_eq_cons.mp values' with ⟨value_eq, values'⟩
              rw [is_second] at values'
              have takes := Record.Takes.field (slots.find_second is_second) (unset' rfl)
                (second.gets_field value_eq)
              have others : Record.Gathers record (second.put data' sofar) members
                  (first.put? data? (second.put? none (second.put data' sofar))) :=
                ih values values' (by simpa [slots.first_isSet] using unset) (by simp)
              exact .cons takes others
        · rw [valuesOf_cons_of_ne is_second] at values'
          exact .cons (.other (slots.find_none is_first is_second)) (ih values values' unset unset')

theorem marking (slots : TwoSlots record first second) : record.Marking := by
  intro field mem written wellFormed before rest blank ends
  simp only [slots.fields_eq, List.mem_cons, List.not_mem_nil, or_false] at mem
  rcases mem with rfl | rfl
  · refine first.marks_or_refuses ?_ wellFormed blank ends
    simp only [slots.fields_eq, List.mem_cons, List.not_mem_nil, or_false]
    rintro other (rfl | rfl) data sofar isSet
    · exact first.isSet_put data sofar
    · exact (slots.second_isSet data sofar).trans isSet
  · refine second.marks_or_refuses ?_ wellFormed blank ends
    simp only [slots.fields_eq, List.mem_cons, List.not_mem_nil, or_false]
    rintro other (rfl | rfl) data sofar isSet
    · exact (slots.first_isSet data sofar).trans isSet
    · exact second.isSet_put data sofar

end TwoSlots

end Deferral.Stored

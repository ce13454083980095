import Deferral.Proofs.Json.Skipped
import Deferral.Proofs.Stored.Values
import Deferral.Stored.Record

/-!
# The members of a record

A record is gathered member by member. A member whose name is that of a field sets the field, which
must not have been set before, and every other member is read past, whatever it holds. In a list the
fields come in the order in which they are declared.
-/

namespace Deferral.Stored.Record

open Json

variable {γ α : Type} {record : Record γ α}

/-- What a member makes of the data gathered before it. -/
inductive Takes (record : Record γ α) (sofar : γ) (member : Member) : γ → Prop
  | field {field : Field γ} {set : γ → γ}
      (found : record.fields.find? (·.name = member.name) = some field)
      (unset : field.isSet sofar = false) (gets : Gets field.read member.value set) :
      Takes record sofar member (set sofar)
  | other (unknown : record.fields.find? (·.name = member.name) = none) :
      Takes record sofar member sofar

/-- What members in a row make of the data gathered before them. -/
inductive Gathers (record : Record γ α) : γ → List Member → γ → Prop
  | nil (sofar : γ) : Gathers record sofar [] sofar
  | cons {sofar next last : γ} {member : Member} {members : List Member}
      (takes : Takes record sofar member next) (gathers : Gathers record next members last) :
      Gathers record sofar (member :: members) last

section Reading

variable {sofar next last : γ} {member : Member} {members : List Member} {first : Bool}
  {steps : Nat} {blanks : List Char}

/-- What remains of an object behind some of its members. -/
abbrev remainingMembers (first : Bool) (members : List Member) : List Char :=
  remaining .object first (members.map Member.item)

/-- The name of a field that has not been set is read, and reading goes on with the field. -/
theorem leads_field {field : Field γ}
    (found : record.fields.find? (·.name = member.name) = some field)
    (unset : field.isSet sofar = false) (blank : Blanks blanks) (rest : List Char) :
    Leads (record.readMembers (steps + 1) first sofar)
      (blanks ++ (remainingMembers first (member :: members) ++ rest))
      (do
        let set ← field.read
        record.readMembers steps false (set sofar))
      (member.before ++ (member.value ++
        (member.behind ++ (remainingMembers false members ++ rest)))) := by
  rw [readMembers]
  apply (reads_lift (Scan.reads_objectGoesOn _ blank member _)).leads.trans
  apply (reads_lift (Scan.reads_advance _ _)).leads.trans
  apply (reads_lift (member.spells.reads _)).leads.trans
  simp only [found, unset]
  exact (reads_lift (Scan.reads_colon member.behindKey_blank _)).leads

/-- A member that is no field is read past. -/
theorem leads_other (unknown : record.fields.find? (·.name = member.name) = none)
    (blank : Blanks blanks) (enough : 2 * member.value.length ≤ steps) (rest : List Char) :
    Leads (record.readMembers (steps + 1) first sofar)
      (blanks ++ (remainingMembers first (member :: members) ++ rest))
      (record.readMembers steps false sofar)
      (member.behind ++ (remainingMembers false members ++ rest)) := by
  have ends := (ends_moreItems .object (members.map Member.item) rest).behind member.behind_blank
  rw [readMembers]
  apply (reads_lift (Scan.reads_objectGoesOn _ blank member _)).leads.trans
  apply (reads_lift (Scan.reads_advance _ _)).leads.trans
  apply (reads_lift (member.spells.reads _)).leads.trans
  simp only [unknown]
  apply (reads_lift (Scan.reads_colon member.behindKey_blank _)).leads.trans
  exact (reads_lift (Scan.reads_skipValue member.wellFormed enough member.before_blank ends)).leads

/-- A field that comes when it has been set is refused. -/
theorem refuses_field {field : Field γ}
    (found : record.fields.find? (·.name = member.name) = some field)
    (set : field.isSet sofar = true) (blank : Blanks blanks) (rest : List Char) :
    Refuses (record.readMembers (steps + 1) first sofar)
      (blanks ++ (remainingMembers first (member :: members) ++ rest))
      (· = .duplicateField member.name) := by
  rw [readMembers]
  apply (reads_lift (Scan.reads_objectGoesOn _ blank member _)).refuses
  apply (reads_lift (Scan.reads_advance _ _)).refuses
  apply (reads_lift (member.spells.reads _)).refuses
  simp only [found, set]
  exact (refuses_throw _ _).bind

/-- A member is read, and reading goes on behind its value. -/
theorem Takes.leads (takes : Takes record sofar member next) (blank : Blanks blanks)
    (enough : 2 * member.value.length ≤ steps) (rest : List Char) :
    Leads (record.readMembers (steps + 1) first sofar)
      (blanks ++ (remainingMembers first (member :: members) ++ rest))
      (record.readMembers steps false next)
      (member.behind ++ (remainingMembers false members ++ rest)) := by
  cases takes with
  | field found unset gets =>
      have ends := (ends_moreItems .object (members.map Member.item) rest).behind
        member.behind_blank
      exact (leads_field found unset blank rest).trans (gets _ _ member.before_blank ends).leads
  | other unknown => exact leads_other unknown blank enough rest

/-- The steps that are enough for some members are one more than what is enough for the first of
them, and for the others. -/
theorem exists_steps (enough : 2 * (remainingMembers first (member :: members)).length ≤ steps) :
    ∃ left, steps = left + 1 ∧ 2 * member.value.length ≤ left ∧
      2 * (remainingMembers false members).length ≤ left := by
  have longer := length_remaining_le .object first member.item (members.map Member.item)
  have text_le : member.value.length + 1 ≤ member.item.text.length := by
    simp only [Item.text, Member.item, Member.label, List.length_append, List.length_cons]
    omega
  rw [remainingMembers, List.map_cons] at enough
  exact ⟨steps - 1, by omega, by omega, by rw [remainingMembers]; omega⟩

/-- Members in a row are read, and reading goes on with the ones behind them. The steps that are
left are enough for these. -/
theorem Gathers.leads (gathers : Gathers record sofar members next) (behind : List Member)
    (blank : Blanks blanks)
    (enough : 2 * (remainingMembers first (members ++ behind)).length ≤ steps) :
    ∃ steps' first' blanks', Blanks blanks' ∧ 2 * (remainingMembers first' behind).length ≤ steps' ∧
      ∀ rest, Leads (record.readMembers steps first sofar)
        (blanks ++ (remainingMembers first (members ++ behind) ++ rest))
        (record.readMembers steps' first' next)
        (blanks' ++ (remainingMembers first' behind ++ rest)) := by
  induction gathers generalizing steps first blanks with
  | nil sofar => exact ⟨steps, first, blanks, blank, enough, fun _ => .refl _ _⟩
  | @cons sofar next last member members takes _ ih =>
      rw [List.cons_append] at enough ⊢
      rcases exists_steps enough with ⟨left, rfl, enough_value, enough_left⟩
      rcases ih member.behind_blank enough_left with
        ⟨steps', first', blanks', blank', enough', onward⟩
      refine ⟨steps', first', blanks', blank', enough', fun rest => ?_⟩
      exact (takes.leads blank enough_value rest).trans (onward rest)

/-- All members of an object are read, and the closing brace. -/
theorem Gathers.reads (gathers : Gathers record sofar members last) (blank : Blanks blanks)
    (enough : 2 * (remainingMembers first members).length ≤ steps) (rest : List Char) :
    Reads (record.readMembers steps first sofar)
      (blanks ++ (remainingMembers first members ++ rest))
      last rest := by
  rw [← List.append_nil members] at enough ⊢
  rcases gathers.leads [] blank enough with ⟨steps', first', blanks', blank', enough', onward⟩
  rcases Nat.exists_eq_add_of_lt (show 0 < steps' by
    simp only [remainingMembers, List.map_nil, remaining_nil, List.length_cons] at enough'
    omega) with ⟨left, rfl⟩
  apply (onward rest).trans
  rw [Nat.zero_add, readMembers]
  apply (reads_lift (Scan.reads_objectGoesOn_nil _ blank' _)).bind
  exact (reads_lift (Scan.reads_advance _ _)).bind (.pure _ _)

/-- Members in a row are read up to one that comes again, which is refused. -/
theorem Gathers.refuses (gathers : Gathers record sofar members next) {again : Member}
    {behind : List Member} {field : Field γ}
    (found : record.fields.find? (·.name = again.name) = some field) (set : field.isSet next = true)
    (blank : Blanks blanks)
    (enough : 2 * (remainingMembers first (members ++ again :: behind)).length ≤ steps)
    (rest : List Char) :
    Refuses (record.readMembers steps first sofar)
      (blanks ++ (remainingMembers first (members ++ again :: behind) ++ rest))
      (· = .duplicateField again.name) := by
  rcases gathers.leads _ blank enough with ⟨steps', first', blanks', blank', enough', onward⟩
  rcases exists_steps enough' with ⟨left, rfl, _, _⟩
  exact (onward rest).refuses (refuses_field found set blank' rest)

end Reading

section Marking

/-- Setting a field marks it, and leaves the other fields marked that are. -/
structure Marks (record : Record γ α) (field : Field γ) (set : γ → γ) : Prop where
  self : ∀ sofar, field.isSet (set sofar) = true
  others : ∀ other ∈ record.fields, ∀ sofar, other.isSet sofar = true →
    other.isSet (set sofar) = true

/-- Reading the value of a field marks the field or fails, whatever the value is. -/
def Marking (record : Record γ α) : Prop :=
  ∀ field ∈ record.fields, ∀ value, WellFormed value → ∀ before rest, Blanks before → Ends rest →
    (∃ set, Reads field.read (before ++ (value ++ rest)) set rest ∧ Marks record field set) ∨
      Refuses field.read (before ++ (value ++ rest)) fun _ => True

variable {sofar : γ} {members : List Member} {first : Bool} {steps : Nat} {blanks : List Char}

/-- No field may come twice: of the members that remain, at most one is a given field, and none is
if the field has been set. -/
theorem Marking.refuses (marking : record.Marking) {name : String} {field : Field γ}
    (found : record.fields.find? (·.name = name) = some field)
    (twice : 2 ≤ (members.map Member.name).count name + (field.isSet sofar).toNat)
    (blank : Blanks blanks) (enough : 2 * (remainingMembers first members).length ≤ steps)
    (rest : List Char) :
    Refuses (record.readMembers steps first sofar)
      (blanks ++ (remainingMembers first members ++ rest))
      fun _ => True := by
  induction members generalizing sofar first steps blanks with
  | nil =>
      have := (field.isSet sofar).toNat_le
      simp only [List.map_nil, List.count_nil] at twice
      omega
  | cons member members ih =>
      rcases exists_steps enough with ⟨left, rfl, enough_value, enough_left⟩
      rw [List.map_cons, List.count_cons] at twice
      cases member_found : record.fields.find? (·.name = member.name) with
      | none =>
          have not_name : member.name ≠ name := by
            rintro rfl
            cases found.symm.trans member_found
          apply (leads_other member_found blank enough_value rest).refuses
          exact ih (by simpa [not_name] using twice) member.behind_blank enough_left
      | some held =>
          cases held_set : held.isSet sofar with
          | true =>
              intro offset
              rcases refuses_field member_found held_set blank rest offset with ⟨error, _, refused⟩
              exact ⟨error, trivial, refused⟩
          | false =>
              apply (leads_field member_found held_set blank rest).refuses
              have ends := (ends_moreItems .object (members.map Member.item) rest).behind
                member.behind_blank
              rcases marking held (List.mem_of_find?_eq_some member_found) _ member.wellFormed _ _
                member.before_blank ends with ⟨set, reads, marks⟩ | refuses
              · apply reads.refuses
                refine ih ?_ member.behind_blank enough_left
                by_cases is_name : member.name = name
                · subst is_name
                  cases found.symm.trans member_found
                  simp only [held_set, BEq.rfl, if_true, Bool.toNat_false] at twice
                  simp only [marks.self, Bool.toNat_true]
                  omega
                · simp only [beq_iff_eq, is_name, if_false, Nat.add_zero] at twice
                  have kept : (field.isSet sofar).toNat ≤ (field.isSet (set sofar)).toNat := by
                    cases isSet : field.isSet sofar with
                    | false => exact Nat.zero_le _
                    | true =>
                        rw [marks.others field (List.mem_of_find?_eq_some found) sofar isSet]
                  omega
              · exact refuses.bind

end Marking

section Objects

variable {last : γ} {members : List Member} {before blanks : List Char} {steps : Nat}

/-- Behind the brace that opens an object its members are read. -/
theorem leads_object (record : Record γ α) (members : List Member) (before_blank : Blanks before)
    (rest : List Char) :
    Leads (record.read steps) (before ++ (objectText blanks members ++ rest))
      (do
        match record.complete (← record.readMembers steps true record.start) with
        | .ok value => return value
        | .error name => throw (.missingField name))
      (blanks ++ (remainingMembers true members ++ rest)) := by
  rw [objectText, List.cons_append, List.append_assoc]
  apply (Read.reads_begin before_blank (by decide) _).leads.trans
  exact (reads_lift (Scan.reads_advance _ _)).leads

theorem enough_members (enough : 2 * (objectText blanks members).length ≤ steps) :
    2 * (remainingMembers true members).length ≤ steps := by
  simp only [objectText, List.length_cons, List.length_append] at enough
  simp only [remainingMembers, remaining, if_true]
  omega

/-- A record is got from an object that gathers what completes it. -/
theorem gets_object {value : α} (gathers : Gathers record record.start members last)
    (complete : record.complete last = .ok value) (blank : Blanks blanks)
    (enough : 2 * (objectText blanks members).length ≤ steps) :
    Gets (record.read steps) (objectText blanks members) value := by
  intro before rest before_blank _
  apply (leads_object record members before_blank rest).trans
  apply (gathers.reads blank (enough_members enough) rest).bind
  rw [complete]
  exact .pure _ _

/-- An object that does not gather all that a record needs is refused for what is missing. -/
theorem refuses_incomplete {name : String} (gathers : Gathers record record.start members last)
    (incomplete : record.complete last = .error name) (blank : Blanks blanks)
    (enough : 2 * (objectText blanks members).length ≤ steps) (before_blank : Blanks before)
    (rest : List Char) :
    Refuses (record.read steps) (before ++ (objectText blanks members ++ rest))
      (· = .missingField name) := by
  apply (leads_object record members before_blank rest).refuses
  apply (gathers.reads blank (enough_members enough) rest).refuses
  rw [incomplete]
  exact refuses_throw _ _

/-- An object in which a field comes again is refused for that field, if what stands in front of it
is right. -/
theorem refuses_again {again : Member} {behind : List Member} {field : Field γ}
    (gathers : Gathers record record.start members last)
    (found : record.fields.find? (·.name = again.name) = some field) (set : field.isSet last = true)
    (blank : Blanks blanks)
    (enough : 2 * (objectText blanks (members ++ again :: behind)).length ≤ steps)
    (before_blank : Blanks before) (rest : List Char) :
    Refuses (record.read steps) (before ++ (objectText blanks (members ++ again :: behind) ++ rest))
      (· = .duplicateField again.name) := by
  apply (leads_object record _ before_blank rest).refuses
  exact (gathers.refuses found set blank (enough_members enough) rest).bind

/-- An object in which a field comes twice is refused, whatever its members hold. -/
theorem refuses_twice (marking : record.Marking) {name : String} {field : Field γ}
    (found : record.fields.find? (·.name = name) = some field)
    (twice : 2 ≤ (members.map Member.name).count name) (blank : Blanks blanks)
    (enough : 2 * (objectText blanks members).length ≤ steps) (before_blank : Blanks before)
    (rest : List Char) :
    Refuses (record.read steps) (before ++ (objectText blanks members ++ rest)) fun _ => True := by
  apply (leads_object record members before_blank rest).refuses
  exact (marking.refuses found (by omega) blank (enough_members enough) rest).bind

end Objects

section Lists

variable {fields : List (Field γ)} {sofar last : γ} {elements : List Element}
  {before blanks : List Char}

/-- What elements of a list make of the data gathered before them, as the fields of a record in
order. -/
inductive Fills : List (Field γ) → γ → List Element → γ → Prop
  | nil (fields : List (Field γ)) (sofar : γ) : Fills fields sofar [] sofar
  | cons {field : Field γ} {fields : List (Field γ)} {sofar last : γ} {set : γ → γ}
      {element : Element} {elements : List Element} (gets : Gets field.read element.value set)
      (fills : Fills fields (set sofar) elements last) :
      Fills (field :: fields) sofar (element :: elements) last

/-- The elements of a list are read, up to the closing bracket. -/
theorem Fills.reads (fills : Fills fields sofar elements last) (first : Bool)
    (blank : Blanks blanks) (rest : List Char) :
    ∃ blanks', Blanks blanks' ∧ Reads (readItems fields first sofar)
      (blanks ++ (remaining .list first (elements.map Element.item) ++ rest)) last
      (blanks' ++ ']' :: rest) := by
  induction fills generalizing first blanks with
  | nil fields sofar =>
      rw [List.map_nil]
      cases fields with
      | nil =>
          rw [remaining_nil]
          exact ⟨blanks, blank, .pure _ _⟩
      | cons field fields =>
          refine ⟨[], .nil, ?_⟩
          rw [readItems]
          exact (reads_lift (Scan.reads_listGoesOn_nil first blank rest)).bind (.pure _ _)
  | @cons field fields sofar last set element elements gets _ ih =>
      rcases ih false element.behind_blank with ⟨blanks', blank', others⟩
      have ends := (ends_moreItems .list (elements.map Element.item) rest).behind
        element.behind_blank
      refine ⟨blanks', blank', ?_⟩
      rw [readItems]
      apply (reads_lift (Scan.reads_listGoesOn first blank element _)).bind
      exact (gets [] _ .nil ends).bind others

/-- A record is got from a list whose elements are the first of its fields, if these complete it. -/
theorem gets_elements {value : α} (fills : Fills record.fields record.start elements last)
    (complete : record.complete last = .ok value) (blank : Blanks blanks) (steps : Nat) :
    Gets (record.read steps) (listText blanks elements) value := by
  intro before rest before_blank _
  rcases fills.reads true blank rest with ⟨blanks', blank', reads⟩
  rw [listText, List.cons_append, List.append_assoc]
  apply (Read.reads_begin before_blank (by decide) _).bind
  apply (reads_lift (Scan.reads_advance _ _)).bind
  apply Reads.bind reads
  simp only [complete]
  apply Reads.bind (reads_lift ((Scan.reads_skipBlanks_cons blank' (by decide) _).bind
    (Scan.reads_advance _ _)))
  exact .pure _ _

end Lists

end Deferral.Stored.Record

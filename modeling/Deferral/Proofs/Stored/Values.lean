import Deferral.Proofs.Json.Items
import Deferral.Stored.Basic

/-!
# What the readers of stored values get

A reader of stored data gets a value from the text that is written for it, whatever blanks stand in
front of the text and whatever follows it that does not go on with a numeral. For data that is made
of other data this follows from the readers of its parts.
-/

namespace Deferral.Stored

open Json

section Lifting

variable {α : Type} {scan : Scan α} {before after : List Char} {value : α}

theorem reads_lift (reads : Reads scan before value after) :
    Reads (liftM scan : Read α) before value after := by
  intro offset
  rcases reads offset with ⟨offset', read⟩
  refine ⟨offset', ?_⟩
  show (scan ⟨offset, before⟩).mapError ReadError.malformed = _
  rw [read]
  rfl

theorem refuses_lift {wrong : SyntaxError → Prop} (refuses : Refuses scan before wrong) :
    Refuses (liftM scan : Read α) before fun _ => True := by
  intro offset
  rcases refuses offset with ⟨error, _, refused⟩
  refine ⟨.malformed error, trivial, ?_⟩
  show (scan ⟨offset, before⟩).mapError ReadError.malformed = _
  rw [refused]
  rfl

theorem settles_lift (settles : Settles scan before after) :
    Settles (liftM scan : Read α) before after := by
  rcases settles with ⟨value, reads⟩ | refuses
  · exact (reads_lift reads).settles
  · exact .inr (refuses_lift refuses)

theorem refuses_throw (error : ReadError) (text : List Char) :
    Refuses (throw error : Read α) text (· = error) :=
  fun _ => ⟨error, rfl, rfl⟩

end Lifting

/-- A reader gets a value from a text between blanks and whatever ends the text. -/
def Gets {α : Type} (reader : Read α) (written : List Char) (value : α) : Prop :=
  ∀ before rest, Blanks before → Ends rest → Reads reader (before ++ (written ++ rest)) value rest

theorem Gets.map {α β : Type} {reader : Read α} {written : List Char} {value : α}
    (gets : Gets reader written value) (function : α → β) :
    Gets (do return function (← reader)) written (function value) :=
  fun before rest blank ends => (gets before rest blank ends).bind (.pure _ _)

namespace Read

variable {α : Type} {written before rest : List Char}

theorem reads_begin (blank : Blanks before) {char : Char} (solid : Scan.isBlank char = false)
    (rest : List Char) : Reads begin (before ++ char :: rest) char (char :: rest) :=
  (reads_lift (Scan.reads_skipBlanks_cons blank solid rest)).bind (.pure _ _)

section Integers

variable {number : JsonNumber} {value : α} {accept : Int → Option α}

/-- An integer that is accepted is got from a numeral that is read as the integer. -/
theorem gets_integer (expected : String) {integer : Int}
    (numeral : ∀ rest, Ends rest → Reads Scan.numeral (written ++ rest) number rest)
    (starts : ∃ first more, written = first :: more ∧ (first = '-' ∨ first.isDigit = true))
    (found : Found.ofNumber number = .integer integer) (accepted : accept integer = some value) :
    Gets (Read.integer expected accept) written value := by
  intro before rest blank ends
  have read := numeral rest ends
  rcases starts with ⟨first, more, rfl, start⟩
  apply (reads_begin blank (isBlank_of_start start) _).bind
  rw [if_pos start]
  apply (reads_lift read).bind
  simp only [found, accepted]
  exact .pure _ _

/-- A natural number is got where it fits. -/
theorem gets_unsigned (expected : String) (value : UInt64) :
    Gets (unsigned expected) (toString value.toNat).toList value := by
  refine gets_integer expected (fun rest ends => Scan.reads_natural value ends)
    (numeral_toString_nat _).exists_cons rfl ?_
  simp [value.toNat_lt_size]

theorem gets_signed (value : Int64) : Gets signed (writeNumber (.ofInt64 value)).toList value := by
  have accepted : (if Int64.minValue.toInt ≤ value.toInt ∧ value.toInt ≤ Int64.maxValue.toInt
      then some (Int64.ofInt value.toInt) else none) = some value := by
    rw [if_pos ⟨value.minValue_le_toInt, value.toInt_le⟩, Int64.ofInt_toInt]
  by_cases below : value < 0
  · rw [JsonNumber.ofInt64, if_pos below]
    exact gets_integer "i64" (fun rest ends => Scan.reads_negative below ends)
      (numeral_toString_int _).exists_cons rfl accepted
  · rw [JsonNumber.ofInt64, if_neg below]
    have toNat_eq : (value.toUInt64.toNat : Int) = value.toInt := by
      have above : 0 ≤ value.toBitVec.toInt := by simpa [Int64.lt_iff_toInt_lt] using below
      show (value.toBitVec.toNat : Int) = value.toBitVec.toInt
      rw [BitVec.toInt_eq_toNat_cond] at above ⊢
      have := value.toBitVec.isLt
      split
      · rfl
      · omega
    refine gets_integer "i64" (fun rest ends => Scan.reads_natural value.toUInt64 ends)
      (numeral_toString_nat _).exists_cons rfl ?_
    rw [toNat_eq]
    exact accepted

end Integers

section Simple

theorem gets_string (text : String) : Gets string (writeText text).toList text := by
  intro before rest blank _
  rw [writeText, String.toList_ofList, List.cons_append, List.cons_append, List.append_assoc]
  apply (reads_begin blank (by decide) _).bind
  apply (reads_lift (Scan.reads_advance _ _)).bind
  exact reads_lift ((spells_flatMap_writeChar _).reads _)

theorem gets_boolean (flag : Bool) : Gets boolean (Json.write (.bool flag)).toList flag := by
  intro before rest blank _
  cases flag with
  | true | false =>
      apply (reads_begin blank (by decide) _).bind
      apply (reads_lift (Scan.reads_advance _ _)).bind
      exact (reads_lift (Scan.reads_letters _ _)).bind (.pure _ _)

theorem gets_unit : Gets unit (Json.write .null).toList () := by
  intro before rest blank _
  apply (reads_begin blank (by decide) _).bind
  apply (reads_lift (Scan.reads_advance _ _)).bind
  exact reads_lift (Scan.reads_letters _ _)

end Simple

section Options

variable {something : Read α}

theorem gets_none (something : Read α) :
    Gets (option something) (Json.write .null).toList none := by
  intro before rest blank _
  apply (reads_lift (Scan.reads_skipBlanks_cons blank (by decide) _)).bind
  apply (reads_lift (Scan.reads_advance _ _)).bind
  exact (reads_lift (Scan.reads_letters _ _)).bind (.pure _ _)

/-- Something is got from a text that could not be that of nothing. -/
theorem gets_some {value : α} (gets : Gets something written value)
    (starts : ∃ first more, written = first :: more ∧ Scan.isBlank first = false ∧ first ≠ 'n') :
    Gets (option something) written (some value) := by
  intro before rest blank ends
  have read := gets [] rest .nil ends
  rcases starts with ⟨first, more, rfl, solid, not_n⟩
  apply (reads_lift (Scan.reads_skipBlanks_cons blank solid _)).bind
  split
  · simp_all
  · exact read.bind (.pure _ _)

end Options

section Lists

variable {item : Read α} {elements : List Element} {values : List α}

/-- The elements that remain are read, and the closing bracket. -/
theorem reads_items (gets : List.Forall₂ (fun element => Gets item element.value) elements values)
    (read : List α) {steps : Nat} (enough : elements.length < steps) (blank : Blanks before)
    (rest : List Char) :
    Reads (items item steps read)
      (before ++ (remaining .list read.isEmpty (elements.map Element.item) ++ rest))
      (read.reverse ++ values) rest := by
  induction gets generalizing read steps before with
  | nil =>
      rcases Nat.exists_eq_add_of_lt enough with ⟨_, rfl⟩
      rw [items, List.append_nil]
      apply (reads_lift (Scan.reads_listGoesOn_nil _ blank _)).bind
      exact (reads_lift (Scan.reads_advance _ _)).bind (.pure _ _)
  | @cons element value elements values gets _ ih =>
      rcases Nat.exists_eq_add_of_lt enough with ⟨left, rfl⟩
      have left_enough : elements.length < elements.length + 1 + left := by omega
      have others := ih (value :: read) left_enough element.behind_blank
      rw [List.reverse_cons, List.append_assoc] at others
      have ends := (ends_moreItems .list (elements.map Element.item) rest).behind
        element.behind_blank
      rw [items]
      apply (reads_lift (Scan.reads_listGoesOn _ blank element _)).bind
      exact (gets [] _ .nil ends).bind others

/-- All elements of a list are read, in order. -/
theorem gets_list (gets : List.Forall₂ (fun element => Gets item element.value) elements values)
    {blanks : List Char} (blank : Blanks blanks) {steps : Nat} (enough : elements.length < steps) :
    Gets (list item steps) (listText blanks elements) values := by
  intro before rest before_blank _
  rw [listText, List.cons_append, List.append_assoc]
  apply (reads_begin before_blank (by decide) _).bind
  apply (reads_lift (Scan.reads_advance _ _)).bind
  exact reads_items gets [] enough blank rest

end Lists

/-- A variant is got from an object with its name as the key and its value as the member. -/
theorem gets_variant {variants : List (String × Read α)} {reader : Read α} {value : α}
    {blanks : List Char} (blank : Blanks blanks) (member : Member)
    (found : variants.lookup member.name = some reader) (gets : Gets reader member.value value) :
    Gets (variant variants) (objectText blanks [member]) value := by
  intro before rest before_blank _
  have ends := (ends_closing .object rest).behind member.behind_blank
  have key_blank := blank.append member.beforeKey_blank
  have text_eq : objectText blanks [member] ++ rest =
      '\x7b' :: (blanks ++ member.beforeKey ++ '"' :: member.onward ('\x7d' :: rest)) := by
    rw [List.append_assoc blanks, ← member.text_item_append]
    simp [objectText, itemsText_cons, moreItems_nil, Bracket.closing]
  rw [text_eq]
  apply (reads_begin before_blank (by decide) _).bind
  apply (reads_lift (Scan.reads_advance _ _)).bind
  apply (reads_lift ((Scan.reads_skipBlanks_cons key_blank (by decide) _).bind
    ((Scan.reads_advance _ _).bind (member.spells.reads _)))).bind
  simp only [found]
  apply (reads_lift (Scan.reads_colon member.behindKey_blank _)).bind
  apply (gets _ _ member.before_blank ends).bind
  apply (reads_lift (Scan.reads_skipBlanks_cons member.behind_blank (by decide) _)).bind
  exact (reads_lift (Scan.reads_advance _ _)).bind (.pure _ _)

end Read

end Deferral.Stored

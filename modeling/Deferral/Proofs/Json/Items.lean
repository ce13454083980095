import Deferral.Proofs.Json.Grammar

/-!
# Going on from item to item

Behind an opening bracket, and behind each item, a reader asks whether there is another one. If
there is, it goes on in front of it: in front of the value in a list, in front of the key in an
object.
-/

namespace Deferral.Json

/-- The items that remain behind an opening bracket, where the first one has no comma in front of
it, or behind another item. -/
def remaining (bracket : Bracket) (first : Bool) (items : List Item) : List Char :=
  if first then itemsText bracket items else moreItems bracket items

theorem remaining_nil (bracket : Bracket) (first : Bool) :
    remaining bracket first [] = [bracket.closing] := by
  cases first <;> rfl

theorem length_remaining_le (bracket : Bracket) (first : Bool) (item : Item) (items : List Item) :
    item.text.length + (remaining bracket false items).length ≤
      (remaining bracket first (item :: items)).length := by
  cases first with
  | true => simp [remaining, itemsText_cons]
  | false => simp [remaining, moreItems_cons]

theorem length_text_le (bracket : Bracket) (first : Bool) {item : Item} {items : List Item}
    (mem : item ∈ items) : item.text.length ≤ (remaining bracket first items).length := by
  induction items generalizing first with
  | nil => cases mem
  | cons next items ih =>
      have longer := length_remaining_le bracket first next items
      rcases List.mem_cons.mp mem with rfl | mem
      · omega
      · exact Nat.le_trans (ih false mem) (by omega)

/-- Every item takes at least one character. -/
theorem length_le_itemsText (bracket : Bracket) (items : List Item) :
    items.length ≤ (itemsText bracket items).length := by
  have more (items : List Item) : items.length < (moreItems bracket items).length := by
    induction items with
    | nil => simp [moreItems_nil]
    | cons item items ih =>
        simp only [moreItems_cons, List.length_cons, List.length_append]
        omega
  cases items with
  | nil => simp
  | cons item items =>
      have behind := more items
      simp only [itemsText_cons, List.length_cons, List.length_append]
      omega

namespace Scan

variable {blanks : List Char} {items : List Item}

section Lists

/-- In front of an element of a list it is gone on in front of the value. -/
theorem reads_listGoesOn (first : Bool) (blank : Blanks blanks) (element : Element)
    (rest : List Char) :
    Reads (listGoesOn first)
      (blanks ++ (remaining .list first (element.item :: items) ++ rest)) true
      (element.value ++ (element.behind ++ (remaining .list false items ++ rest))) := by
  rcases element.wellFormed.exists_cons with ⟨char, more, value_eq, solid, _, not_closing⟩
  have not_closing := not_closing .list
  have text_eq : element.item.text = element.before ++ char :: (more ++ element.behind) := by
    simp [Item.text, Element.item, value_eq]
  rw [value_eq, List.cons_append, ← List.append_assoc more]
  cases first with
  | true =>
      rw [remaining, if_pos rfl, itemsText_cons, text_eq, List.append_assoc, List.append_assoc,
        ← List.append_assoc, List.cons_append]
      apply (reads_skipBlanks_cons (blank.append element.before_blank) solid _).bind
      split
      · simp_all
      · simp_all [Bracket.closing]
      · exact .pure _ _
  | false =>
      rw [remaining, if_neg (by decide), moreItems_cons, text_eq, List.cons_append,
        List.append_assoc, List.append_assoc, List.cons_append]
      apply (reads_skipBlanks_cons blank (by decide) _).bind
      apply (reads_advance _ _).bind
      apply (reads_skipBlanks_cons element.before_blank solid _).bind
      split
      · simp_all
      · simp_all [Bracket.closing]
      · exact .pure _ _

theorem reads_listGoesOn_nil (first : Bool) (blank : Blanks blanks) (rest : List Char) :
    Reads (listGoesOn first) (blanks ++ (remaining .list first [] ++ rest)) false
      (']' :: rest) := by
  rw [remaining_nil]
  exact (reads_skipBlanks_cons blank (by decide) _).bind (.pure _ _)

end Lists

section Objects

/-- In front of a member of an object it is gone on in front of the quote that opens the key. -/
theorem reads_objectGoesOn (first : Bool) (blank : Blanks blanks) (member : Member)
    (rest : List Char) :
    Reads (objectGoesOn first)
      (blanks ++ (remaining .object first (member.item :: items) ++ rest)) true
      ('"' :: member.onward (remaining .object false items ++ rest)) := by
  cases first with
  | true =>
      rw [remaining, if_pos rfl, itemsText_cons, List.append_assoc, member.text_item_append,
        ← List.append_assoc]
      exact (reads_skipBlanks_cons (blank.append member.beforeKey_blank) (by decide) _).bind
        (.pure _ _)
  | false =>
      rw [remaining, if_neg (by decide), moreItems_cons, List.cons_append, List.append_assoc,
        member.text_item_append]
      apply (reads_skipBlanks_cons blank (by decide) _).bind
      apply (reads_advance _ _).bind
      exact (reads_skipBlanks_cons member.beforeKey_blank (by decide) _).bind (.pure _ _)

theorem reads_objectGoesOn_nil (first : Bool) (blank : Blanks blanks) (rest : List Char) :
    Reads (objectGoesOn first) (blanks ++ (remaining .object first [] ++ rest)) false
      ('\x7d' :: rest) := by
  rw [remaining_nil]
  exact (reads_skipBlanks_cons blank (by decide) _).bind (.pure _ _)

theorem reads_colon (blank : Blanks blanks) (rest : List Char) :
    Reads colon (blanks ++ ':' :: rest) () rest :=
  (reads_skipBlanks_cons blank (by decide) _).bind (reads_advance _ _)

end Objects

end Scan

end Deferral.Json

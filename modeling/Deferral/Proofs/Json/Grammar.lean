import Deferral.Proofs.Json.Numerals
import Deferral.Proofs.Json.Spelling

/-!
# The texts of values

A well-formed value is a keyword, a numeral, a text between quotes, or items between brackets:
nothing but values in a list, keys and values in an object, and blanks wherever they may stand. So a
value is known by its first character, and what may follow it does not go on with a numeral.
-/

namespace Deferral.Json

/-- The bracket that opens a list or an object. -/
def Bracket.opening : Bracket → Char
  | .list => '['
  | .object => '\x7b'

/-- What stands in front of an item: nothing in a list, a key and a colon in an object. -/
inductive Label : Bracket → List Char → Prop
  | item : Label .list []
  | member {before key behind : List Char} (before_blank : Blanks before) (quoted : Quoted key)
      (behind_blank : Blanks behind) :
      Label .object (before ++ '"' :: (key ++ '"' :: (behind ++ [':'])))

/-- An item between brackets, as it is written. -/
structure Item where
  label : List Char
  before : List Char
  value : List Char
  behind : List Char

/-- The characters of an item, from its label to the blanks behind its value. -/
def Item.text (item : Item) : List Char :=
  item.label ++ item.before ++ item.value ++ item.behind

/-- Around the value of an item there is nothing but blanks. -/
structure Item.Padded (item : Item) : Prop where
  before : Blanks item.before
  behind : Blanks item.behind

/-- Items with commas between them, and the closing bracket. -/
def itemsText (bracket : Bracket) (items : List Item) : List Char :=
  [','].intercalate (items.map Item.text) ++ [bracket.closing]

/-- Items with a comma in front of each, and the closing bracket. -/
def moreItems (bracket : Bracket) (items : List Item) : List Char :=
  items.flatMap (fun item => ',' :: item.text) ++ [bracket.closing]

/-- The texts of values. -/
inductive WellFormed : List Char → Prop
  | null : WellFormed ['n', 'u', 'l', 'l']
  | isTrue : WellFormed ['t', 'r', 'u', 'e']
  | isFalse : WellFormed ['f', 'a', 'l', 's', 'e']
  | numeral {text : List Char} (numeral : Numeral text) : WellFormed text
  | quoted {text : List Char} (quoted : Quoted text) : WellFormed ('"' :: (text ++ ['"']))
  | bracketed {blanks : List Char} {items : List Item} (bracket : Bracket) (blank : Blanks blanks)
      (labels : ∀ item ∈ items, Label bracket item.label)
      (padded : ∀ item ∈ items, item.Padded) (values : ∀ item ∈ items, WellFormed item.value) :
      WellFormed (bracket.opening :: (blanks ++ itemsText bracket items))

theorem itemsText_nil (bracket : Bracket) : itemsText bracket [] = [bracket.closing] := rfl

theorem moreItems_nil (bracket : Bracket) : moreItems bracket [] = [bracket.closing] := rfl

theorem moreItems_cons (bracket : Bracket) (item : Item) (items : List Item) :
    moreItems bracket (item :: items) = ',' :: (item.text ++ moreItems bracket items) := by
  simp [moreItems]

theorem itemsText_cons (bracket : Bracket) (item : Item) (items : List Item) :
    itemsText bracket (item :: items) = item.text ++ moreItems bracket items := by
  induction items generalizing item with
  | nil => simp [itemsText, moreItems]
  | cons next items ih =>
      have rest_eq := ih next
      rw [moreItems_cons, ← rest_eq]
      simp [itemsText, List.intercalate_cons_cons]

section Following

variable {blanks text rest : List Char}

theorem Ends.cons {char : Char} (no_digit : char.isDigit = false) (not_point : char ≠ '.')
    (not_e : char ≠ 'e') (not_E : char ≠ 'E') (rest : List Char) : Ends (char :: rest) := by
  rintro _ ⟨⟩
  exact ⟨no_digit, not_point, not_e, not_E⟩

theorem Ends.behind (blank : Blanks blanks) (ends : Ends rest) : Ends (blanks ++ rest) := by
  cases blanks with
  | nil => exact ends
  | cons char blanks =>
      have char_blank := blank char List.mem_cons_self
      simp only [Scan.isBlank, Bool.or_eq_true, decide_eq_true_eq] at char_blank
      rcases char_blank with ((rfl | rfl) | rfl) | rfl
      all_goals exact .cons (by decide) (by decide) (by decide) (by decide) _

theorem ends_closing (bracket : Bracket) (rest : List Char) : Ends (bracket.closing :: rest) := by
  cases bracket with
  | list => exact .cons (by decide) (by decide) (by decide) (by decide) _
  | object => exact .cons (by decide) (by decide) (by decide) (by decide) _

theorem ends_moreItems (bracket : Bracket) (items : List Item) (rest : List Char) :
    Ends (moreItems bracket items ++ rest) := by
  cases items with
  | nil => exact ends_closing bracket rest
  | cons item items =>
      rw [moreItems_cons]
      exact .cons (by decide) (by decide) (by decide) (by decide) _

theorem isBlank_closing (bracket : Bracket) : Scan.isBlank bracket.closing = false := by
  cases bracket <;> rfl

/-- What a numeral may begin with is not blank. -/
theorem isBlank_of_start {first : Char} (start : first = '-' ∨ first.isDigit = true) :
    Scan.isBlank first = false := by
  cases blank : Scan.isBlank first with
  | false => rfl
  | true =>
      simp only [Scan.isBlank, Bool.or_eq_true, decide_eq_true_eq] at blank
      rcases blank with ((rfl | rfl) | rfl) | rfl
      all_goals simp at start

theorem Numeral.exists_cons (numeral : Numeral text) :
    ∃ first more, text = first :: more ∧ (first = '-' ∨ first.isDigit = true) := by
  rcases numeral with ⟨sign_eq, whole, _, _⟩
  rcases whole.exists_cons with ⟨digit, more, rfl, isDigit⟩
  rcases sign_eq with rfl | rfl
  · exact ⟨digit, _, rfl, .inr isDigit⟩
  · exact ⟨'-', _, rfl, .inl rfl⟩

/-- A value does not begin with a blank, a comma or a closing bracket. -/
theorem WellFormed.exists_cons (wellFormed : WellFormed text) :
    ∃ first more, text = first :: more ∧ Scan.isBlank first = false ∧ first ≠ ',' ∧
      ∀ bracket : Bracket, first ≠ bracket.closing := by
  have solid {first : Char} (more : List Char) (not_blank : Scan.isBlank first = false)
      (not_comma : first ≠ ',') (not_list : first ≠ ']') (not_object : first ≠ '\x7d') :
      ∃ first' more', first :: more = first' :: more' ∧ Scan.isBlank first' = false ∧ first' ≠ ',' ∧
        ∀ bracket : Bracket, first' ≠ bracket.closing :=
    ⟨first, more, rfl, not_blank, not_comma, fun bracket => by cases bracket <;> assumption⟩
  cases wellFormed with
  | null | isTrue | isFalse | quoted =>
      exact solid _ (by decide) (by decide) (by decide) (by decide)
  | numeral numeral =>
      rcases numeral.exists_cons with ⟨first, more, rfl, start⟩
      refine solid _ (isBlank_of_start start) ?_ ?_ ?_
      all_goals
        rintro rfl
        simp at start
  | bracketed bracket =>
      cases bracket with
      | list | object => exact solid _ (by decide) (by decide) (by decide) (by decide)

/-- A value that begins as a numeral is one. -/
theorem WellFormed.numeral_of_start (wellFormed : WellFormed text) {first : Char} {more : List Char}
    (text_eq : text = first :: more) (start : first = '-' ∨ first.isDigit = true) :
    Numeral text := by
  cases wellFormed with
  | numeral numeral => exact numeral
  | null | isTrue | isFalse | quoted =>
      cases text_eq
      simp at start
  | bracketed bracket =>
      cases text_eq
      cases bracket <;> simp [Bracket.opening] at start

/-- A value that begins as nothing does is nothing. -/
theorem WellFormed.null_of_start (wellFormed : WellFormed text) {more : List Char}
    (text_eq : text = 'n' :: more) : text = ['n', 'u', 'l', 'l'] := by
  cases wellFormed with
  | null => rfl
  | isTrue | isFalse | quoted => cases text_eq
  | numeral numeral =>
      rcases numeral.exists_cons with ⟨_, _, rfl, start⟩
      cases text_eq
      simp at start
  | bracketed bracket =>
      cases bracket with
      | list | object => cases text_eq

end Following

/-- An element of a list: a value with blanks around it. -/
structure Element where
  value : List Char
  before : List Char := []
  behind : List Char := []
  wellFormed : WellFormed value
  before_blank : Blanks before := by exact .nil
  behind_blank : Blanks behind := by exact .nil

/-- An element is an item without a label. -/
def Element.item (element : Element) : Item := ⟨[], element.before, element.value, element.behind⟩

/-- The text of a list. -/
def listText (blanks : List Char) (elements : List Element) : List Char :=
  '[' :: (blanks ++ itemsText .list (elements.map Element.item))

theorem wellFormed_listText {blanks : List Char} (blank : Blanks blanks) (elements : List Element) :
    WellFormed (listText blanks elements) := by
  refine .bracketed .list blank ?_ ?_ ?_
  all_goals
    intro item mem
    rcases List.mem_map.mp mem with ⟨element, _, rfl⟩
  · exact .item
  · exact ⟨element.before_blank, element.behind_blank⟩
  · exact element.wellFormed

/-- A member of an object: a key that spells a name, and a value, with blanks wherever they may
stand. -/
structure Member where
  name : String
  key : List Char
  value : List Char
  beforeKey : List Char := []
  behindKey : List Char := []
  before : List Char := []
  behind : List Char := []
  spells : Spells key name.toList
  wellFormed : WellFormed value
  beforeKey_blank : Blanks beforeKey := by exact .nil
  behindKey_blank : Blanks behindKey := by exact .nil
  before_blank : Blanks before := by exact .nil
  behind_blank : Blanks behind := by exact .nil

namespace Member

/-- What stands in front of a member's value: its key in quotes and the colon. -/
def label (member : Member) : List Char :=
  member.beforeKey ++ '"' :: (member.key ++ '"' :: (member.behindKey ++ [':']))

/-- A member is an item whose label is its key. -/
def item (member : Member) : Item := ⟨member.label, member.before, member.value, member.behind⟩

/-- What stands behind the opening quote of a member that is followed by some text. -/
def onward (member : Member) (text : List Char) : List Char :=
  member.key ++ '"' :: (member.behindKey ++ ':' ::
    (member.before ++ (member.value ++ (member.behind ++ text))))

theorem text_item_append (member : Member) (text : List Char) :
    member.item.text ++ text = member.beforeKey ++ '"' :: member.onward text := by
  simp [item, label, Item.text, onward]

theorem label_item (member : Member) : Label .object member.item.label :=
  .member member.beforeKey_blank member.spells.quoted member.behindKey_blank

theorem padded_item (member : Member) : member.item.Padded :=
  ⟨member.before_blank, member.behind_blank⟩

end Member

/-- The text of an object. -/
def objectText (blanks : List Char) (members : List Member) : List Char :=
  '\x7b' :: (blanks ++ itemsText .object (members.map Member.item))

theorem wellFormed_objectText {blanks : List Char} (blank : Blanks blanks) (members : List Member) :
    WellFormed (objectText blanks members) := by
  refine .bracketed .object blank ?_ ?_ ?_
  all_goals
    intro item mem
    rcases List.mem_map.mp mem with ⟨member, _, rfl⟩
  · exact member.label_item
  · exact member.padded_item
  · exact member.wellFormed

end Deferral.Json

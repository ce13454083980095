import Deferral.Proofs.Json.Grammar

/-!
# Well-formed values are read past

A value that nobody asks for is read past, whatever it is and however deep its brackets are nested,
and reading goes on behind it. What this costs in steps is less than twice the length of the value.
-/

namespace Deferral.Json

namespace Scan

variable {text rest written : List Char}

theorem reads_skipDigits (digits : Digits text) (no_digit : NoDigit rest) :
    Reads skipDigits (text ++ rest) () rest := by
  have read := reads_digits digits.2 no_digit
  rcases digits with ⟨not_empty, digits⟩
  rcases List.exists_cons_of_ne_nil not_empty with ⟨digit, more, rfl⟩
  apply (reads_peek _).bind
  simp only [List.cons_append, List.head?_cons, digits digit List.mem_cons_self, if_true]
  show Reads (Scan.digits >>= fun _ => pure ()) _ () rest
  exact read.bind (.pure _ _)

theorem reads_skipExponent (exponent : Exponent written) (ends : Ends rest) :
    Reads skipExponent (written ++ rest) () rest := by
  cases exponent with
  | none =>
      apply (reads_peek _).bind
      cases rest with
      | nil => exact .pure _ _
      | cons char rest =>
          rcases ends char rfl with ⟨_, _, not_e, not_E⟩
          simp only [List.nil_append, List.head?_cons]
          split
          · simp_all
          · simp_all
          · exact .pure _ _
  | mark mark_eq sign_eq digits =>
      rename_i sign text
      have skipped := reads_skipDigits digits ends.noDigit
      have signed : Reads exponentSign (sign ++ (text ++ rest)) (decide (sign = ['-']))
          (text ++ rest) := by
        rcases digits with ⟨not_empty, digits⟩
        rcases List.exists_cons_of_ne_nil not_empty with ⟨digit, more, rfl⟩
        exact reads_exponentSign sign_eq (digits digit List.mem_cons_self) _
      rw [List.cons_append, List.cons_append, List.append_assoc]
      apply (reads_peek _).bind
      rcases mark_eq with rfl | rfl
      · exact (reads_advance _ _).bind (signed.bind skipped)
      · exact (reads_advance _ _).bind (signed.bind skipped)

/-- A numeral is read past, however large it is. -/
theorem reads_skipNumeral (numeral : Numeral written) (ends : Ends rest) :
    Reads skipNumeral (written ++ rest) () rest := by
  rcases numeral with @⟨sign, whole, decimals, exponent, sign_eq, whole_is, decimals_are,
    exponent_is⟩
  have no_digit : NoDigit (exponent ++ rest) := by
    cases exponent_is with
    | none => exact ends.noDigit
    | mark mark_eq _ _ => exact .cons (by rcases mark_eq with rfl | rfl <;> rfl) _
  have no_digit' : NoDigit (decimals ++ (exponent ++ rest)) := by
    cases decimals_are with
    | none => exact no_digit
    | point _ => exact .cons rfl _
  have skipped := reads_skipExponent exponent_is ends
  have behind : Reads (do
      if (← peek) = some '.' then do
        advance
        skipDigits
      skipExponent) (decimals ++ (exponent ++ rest)) () rest := by
    apply (reads_peek _).bind
    cases decimals_are with
    | none =>
        have not_point : (exponent ++ rest).head? ≠ some '.' := by
          cases exponent_is with
          | none => exact fun point => (ends _ point).2.1 rfl
          | mark mark_eq _ _ => rcases mark_eq with rfl | rfl <;> simp
        rw [List.nil_append, if_neg not_point]
        exact skipped
    | point digits =>
        rw [List.cons_append, List.head?_cons, if_pos rfl]
        exact (reads_advance _ _).bind ((reads_skipDigits digits no_digit).bind skipped)
  have unsigned : Reads (do
      if (← peek) = some '0' then
        advance
        if (← peek).any Char.isDigit then failNext .invalidNumber
      else skipDigits
      if (← peek) = some '.' then do
        advance
        skipDigits
      skipExponent) (whole ++ (decimals ++ (exponent ++ rest))) () rest := by
    apply (reads_peek _).bind
    cases whole_is with
    | zero =>
        have not_any : (decimals ++ (exponent ++ rest)).head?.any Char.isDigit = false := by
          cases head_eq : (decimals ++ (exponent ++ rest)).head? with
          | none => rfl
          | some char => exact no_digit' char head_eq
        rw [List.cons_append, List.nil_append, List.head?_cons, if_pos rfl]
        apply (reads_advance _ _).bind
        apply (reads_peek _).bind
        rw [not_any]
        exact behind
    | positive not_zero digits =>
        rw [List.cons_append, List.head?_cons, if_neg (by simpa using not_zero)]
        exact (reads_skipDigits ⟨by simp, digits⟩ no_digit').bind behind
  simp only [List.append_assoc]
  apply (reads_peek _).bind
  rcases sign_eq with rfl | rfl
  · have not_minus : (whole ++ (decimals ++ (exponent ++ rest))).head? ≠ some '-' := by
      rcases whole_is.exists_cons with ⟨digit, more, rfl, isDigit⟩
      rintro ⟨⟩
      cases isDigit
    rw [List.nil_append, if_neg not_minus]
    exact unsigned
  · exact (reads_advance _ _).bind unsigned

/-- What stands in front of an item is read past. -/
theorem reads_skipLabel {bracket : Bracket} {label : List Char} (is_label : Label bracket label)
    (rest : List Char) : Reads (skipLabel bracket) (label ++ rest) () rest := by
  cases is_label with
  | item => exact .pure _ _
  | member before_blank quoted behind_blank =>
      simp only [List.append_assoc, List.cons_append, List.nil_append]
      apply (reads_skipBlanks_cons before_blank (by decide) _).bind
      apply (reads_advance _ _).bind
      apply (quoted.reads_skipString _).bind
      apply (reads_skipBlanks_cons behind_blank (by decide) _).bind
      exact reads_advance _ _

/-- The text of a value is read past in less steps than twice its length, and what is done next is
what is done behind an item. -/
def Skippable (text : List Char) : Prop :=
  ∃ cost, cost < 2 * text.length ∧ ∀ steps brackets before rest, Blanks before → Ends rest →
    Leads (skipWithin (steps + cost) brackets) (before ++ (text ++ rest))
      (skipBehind steps true brackets) rest

section Items

variable {bracket : Bracket} {items : List Item}

/-- Behind an item the other items are read past, and the closing bracket. -/
theorem skips_moreItems (labels : ∀ item ∈ items, Label bracket item.label)
    (padded : ∀ item ∈ items, item.Padded)
    (values : ∀ item ∈ items, Skippable item.value) :
    ∃ cost, cost ≤ 2 * (moreItems bracket items).length ∧
      ∀ steps brackets blanks rest, Blanks blanks →
      Leads (skipBehind (steps + cost) true (bracket :: brackets))
        (blanks ++ (moreItems bracket items ++ rest)) (skipBehind steps true brackets) rest := by
  induction items with
  | nil =>
      refine ⟨1, by simp [moreItems_nil], fun steps brackets blanks rest blank => ?_⟩
      have not_comma : ¬ (bracket.closing = ',' ∧ true = true) := by cases bracket <;> decide
      rw [skipBehind, moreItems_nil, List.cons_append]
      apply (reads_skipBlanks_cons blank (isBlank_closing bracket) _).leads.trans
      dsimp only
      rw [if_neg not_comma, if_pos rfl]
      exact (reads_advance _ _).leads
  | cons item items ih =>
      simp only [List.forall_mem_cons] at labels padded values
      rcases ih labels.2 padded.2 values.2 with ⟨more, more_le, skips⟩
      rcases values.1 with ⟨cost, cost_lt, skips_value⟩
      refine ⟨more + cost + 1, ?_, fun steps brackets blanks rest blank => ?_⟩
      · simp only [moreItems_cons, List.length_cons, List.length_append, Item.text]
        omega
      · rw [moreItems_cons, List.cons_append, ← Nat.add_assoc, ← Nat.add_assoc, skipBehind]
        apply (reads_skipBlanks_cons blank (by decide) _).leads.trans
        apply (reads_advance _ _).leads.trans
        simp only [Item.text, List.append_assoc]
        apply (reads_skipLabel labels.1 _).leads.trans
        apply (skips_value _ _ _ _ padded.1.before
          ((ends_moreItems _ _ _).behind padded.1.behind)).trans
        exact skips _ _ _ _ padded.1.behind

/-- The blanks in front of a label, or of a value that has none, may be read past before it. -/
theorem exists_solid_label {label before value : List Char} (is_label : Label bracket label)
    (before_blank : Blanks before) (wellFormed : WellFormed value) :
    ∃ blanks label' before', Blanks blanks ∧ Label bracket label' ∧ Blanks before' ∧
      label ++ before = blanks ++ (label' ++ before') ∧
      ∃ first more, label' ++ (before' ++ value) = first :: more ∧ isBlank first = false ∧
        first ≠ ',' ∧ first ≠ bracket.closing := by
  cases is_label with
  | item =>
      rcases wellFormed.exists_cons with ⟨first, more, value_eq, solid, not_comma, not_closing⟩
      exact ⟨before, [], [], before_blank, .item, .nil, by simp, first, more, value_eq, solid,
        not_comma, not_closing _⟩
  | member label_blank quoted behind_blank =>
      refine ⟨_, _, before, label_blank, .member .nil quoted behind_blank, before_blank, ?_, ?_⟩
      · rw [List.append_assoc, List.nil_append]
      · exact ⟨_, _, rfl, by decide, by decide, by decide⟩

/-- Behind an opening bracket all items are read past, and the closing bracket. -/
theorem skips_itemsText (labels : ∀ item ∈ items, Label bracket item.label)
    (padded : ∀ item ∈ items, item.Padded)
    (wellFormed : ∀ item ∈ items, WellFormed item.value)
    (values : ∀ item ∈ items, Skippable item.value) :
    ∃ cost, cost ≤ 2 * (itemsText bracket items).length ∧
      ∀ steps brackets blanks rest, Blanks blanks →
      Leads (skipBehind (steps + cost) false (bracket :: brackets))
        (blanks ++ (itemsText bracket items ++ rest)) (skipBehind steps true brackets) rest := by
  cases items with
  | nil =>
      refine ⟨1, by simp [itemsText_nil], fun steps brackets blanks rest blank => ?_⟩
      rw [skipBehind, itemsText_nil, List.cons_append]
      apply (reads_skipBlanks_cons blank (isBlank_closing bracket) _).leads.trans
      simp only [Bool.false_eq_true, and_false, if_false, if_true]
      exact (reads_advance _ _).leads
  | cons item items =>
      simp only [List.forall_mem_cons] at labels padded values wellFormed
      rcases skips_moreItems labels.2 padded.2 values.2 with ⟨more, more_le, skips⟩
      rcases values.1 with ⟨cost, cost_lt, skips_value⟩
      rcases exists_solid_label labels.1 padded.1.before wellFormed.1 with
        ⟨pad, label, before, pad_blank, is_label, is_blank, label_eq, first, tail, first_eq, solid,
          not_comma, not_closing⟩
      refine ⟨more + cost + 1, ?_, fun steps brackets blanks rest blank => ?_⟩
      · simp only [itemsText_cons, List.length_append, Item.text]
        omega
      · have text_eq : itemsText bracket (item :: items) ++ rest =
            pad ++ (label ++
              (before ++ (item.value ++ (item.behind ++ (moreItems bracket items ++ rest))))) := by
          rw [itemsText_cons, Item.text, label_eq]
          simp only [List.append_assoc]
        have head_eq : label ++
            (before ++ (item.value ++ (item.behind ++ (moreItems bracket items ++ rest)))) =
            first :: (tail ++ (item.behind ++ (moreItems bracket items ++ rest))) := by
          rw [← List.cons_append, ← first_eq]
          simp only [List.append_assoc]
        rw [text_eq, ← Nat.add_assoc, ← Nat.add_assoc, skipBehind, ← List.append_assoc, head_eq]
        apply (reads_skipBlanks_cons (blank.append pad_blank) solid _).leads.trans
        simp only [Bool.false_eq_true, and_false, if_false, if_neg not_closing]
        rw [← head_eq]
        apply (reads_skipLabel is_label _).leads.trans
        apply (skips_value _ _ _ _ is_blank ((ends_moreItems _ _ _).behind padded.1.behind)).trans
        exact skips _ _ _ _ padded.1.behind

end Items

/-- A numeral is known by its first character. -/
theorem skippable_of_numeral (numeral : Numeral text) : Skippable text := by
  rcases numeral.exists_cons with ⟨first, more, text_eq, start⟩
  refine ⟨1, by rw [text_eq, List.length_cons]; omega,
    fun steps brackets before rest blank ends => ?_⟩
  have head_eq : (text ++ rest).head? = some first := by
    rw [text_eq, List.cons_append, List.head?_cons]
  have solid : Solid (text ++ rest) := by
    rcases (WellFormed.numeral numeral).exists_cons with ⟨first, more, text_eq, solid, _⟩
    rw [text_eq]
    exact .cons solid _
  rw [skipWithin]
  apply (reads_skipBlanks blank solid).leads.trans
  rw [head_eq]
  split
  case h_8 char eq =>
    cases eq
    rw [if_pos start]
    exact (reads_skipNumeral numeral ends).leads
  all_goals
    rename_i eq
    cases eq
  all_goals simp at start

/-- Every well-formed value is read past. -/
theorem skippable_of_wellFormed (wellFormed : WellFormed text) : Skippable text := by
  induction wellFormed with
  | null =>
      refine ⟨1, by decide, fun steps brackets before rest blank _ => ?_⟩
      rw [skipWithin]
      apply (reads_skipBlanks_cons blank (by decide) _).leads.trans
      exact (reads_advance _ _).leads.trans (reads_letters _ _).leads
  | isTrue =>
      refine ⟨1, by decide, fun steps brackets before rest blank _ => ?_⟩
      rw [skipWithin]
      apply (reads_skipBlanks_cons blank (by decide) _).leads.trans
      exact (reads_advance _ _).leads.trans (reads_letters _ _).leads
  | isFalse =>
      refine ⟨1, by decide, fun steps brackets before rest blank _ => ?_⟩
      rw [skipWithin]
      apply (reads_skipBlanks_cons blank (by decide) _).leads.trans
      exact (reads_advance _ _).leads.trans (reads_letters _ _).leads
  | numeral numeral => exact skippable_of_numeral numeral
  | quoted quoted =>
      refine ⟨1, by simp only [List.length_cons]; omega,
        fun steps brackets before rest blank _ => ?_⟩
      rw [skipWithin, List.cons_append, List.append_assoc]
      apply (reads_skipBlanks_cons blank (by decide) _).leads.trans
      exact (reads_advance _ _).leads.trans (quoted.reads_skipString _).leads
  | @bracketed blanks items bracket blank labels padded wellFormed values =>
      rcases skips_itemsText labels padded wellFormed values with
        ⟨cost, cost_le, skips⟩
      refine ⟨cost + 1, ?_, fun steps brackets before rest before_blank _ => ?_⟩
      · simp only [List.length_cons, List.length_append]
        omega
      · rw [← Nat.add_assoc, skipWithin, List.cons_append, List.append_assoc]
        cases bracket with
        | list =>
            apply (reads_skipBlanks_cons before_blank (by decide) _).leads.trans
            exact (reads_advance _ _).leads.trans (skips _ _ _ _ blank)
        | object =>
            apply (reads_skipBlanks_cons before_blank (by decide) _).leads.trans
            exact (reads_advance _ _).leads.trans (skips _ _ _ _ blank)

/-- With two steps for each character a value is read past. -/
theorem reads_skipValue (wellFormed : WellFormed text)
    {steps : Nat} (enough : 2 * text.length ≤ steps)
    {before : List Char} (blank : Blanks before) (ends : Ends rest) :
    Reads (skipValue steps) (before ++ (text ++ rest)) () rest := by
  rcases skippable_of_wellFormed wellFormed with ⟨cost, cost_lt, skips⟩
  rcases Nat.exists_eq_add_of_lt (Nat.lt_of_lt_of_le cost_lt enough) with ⟨left, steps_eq⟩
  have skipped := skips (left + 1) [] before rest blank ends
  rw [show left + 1 + cost = steps by omega] at skipped
  exact skipped

end Scan

end Deferral.Json

import Deferral.Codec.Primitive
import Deferral.Proofs.Json.Grammar
import Deferral.Proofs.Number.Written

/-!
# Doubles are read as they are written

A double is written as a numeral with a point or an exponent. What is read of it is a significand,
made of all the digits, and a power of ten. This is the decimal that was chosen for the double, but
for whole numbers that are written positionally: the zeros in front of the point and the one behind
it are digits as well.
-/

namespace Deferral

namespace Json

open Double

variable {decimal : Decimal} {text decimals rest : List Char} {negative : Bool}
  {significand : Nat} {exponent : Int}

/-- The sign that is written in front of a double. -/
def signText (negative : Bool) : List Char := if negative then ['-'] else []

theorem signText_spec (negative : Bool) :
    (signText negative = [] ∨ signText negative = ['-']) ∧
      decide (signText negative = ['-']) = negative := by
  cases negative with
  | false => exact ⟨.inl rfl, rfl⟩
  | true => exact ⟨.inr rfl, rfl⟩

namespace Scan

theorem reads_scaled {double : Double}
    (scaled_eq : Double.ofDecimal? significand exponent = some double) (rest : List Char) :
    Reads (scaled negative significand exponent) rest (signed negative double) rest := by
  intro offset
  refine ⟨offset, ?_⟩
  simp only [scaled, scaled_eq]

section Numerals

variable (negative) in
/-- Digits on both sides of a point are read as one significand. -/
theorem leads_numeral_point (whole : Whole text) (digits : Digits decimals)
    (no_digit : NoDigit rest)
    (small : Nat.ofDigitChars 10 (text ++ decimals) 0 < significandLimit) :
    Leads numeral (signText negative ++ (text ++ '.' :: (decimals ++ rest)))
      (.double <$> exponentPart negative (Nat.ofDigitChars 10 (text ++ decimals) 0)
        (-decimals.length))
      rest := by
  rcases signText_spec negative with ⟨sign_eq, negative_eq⟩
  rw [Nat.ofDigitChars_append] at small ⊢
  have whole_small := Nat.lt_of_le_of_lt (le_ofDigitChars decimals _) small
  apply (leads_numeral whole sign_eq _).trans
  rw [negative_eq]
  apply (leads_unsignedNumeral_point negative whole _).trans
  rw [absorb_of_lt whole_small]
  apply Leads.map
  apply (leads_fractionPart digits no_digit).trans
  rw [absorb_of_lt small]
  simpa using Leads.refl _ _

variable (negative) in
/-- Digits in front of an exponent are read as a significand. -/
theorem leads_numeral_mark (whole : Whole text) (rest : List Char)
    (small : Nat.ofDigitChars 10 text 0 < significandLimit) :
    Leads numeral (signText negative ++ (text ++ 'e' :: rest))
      (.double <$> exponentPart negative (Nat.ofDigitChars 10 text 0) 0) ('e' :: rest) := by
  rcases signText_spec negative with ⟨sign_eq, negative_eq⟩
  apply (leads_numeral whole sign_eq _).trans
  rw [negative_eq]
  have marked := leads_unsignedNumeral_mark negative whole (.inl rfl) rest
  rw [absorb_of_lt small] at marked
  simpa using marked

/-- The sign and the digits of a place are read as the place. -/
theorem leads_exponentPart_place {place : Int} (small : place.natAbs < exponentLimit)
    (no_digit : NoDigit rest) :
    Leads (exponentPart negative significand exponent)
      ('e' :: (if place < 0 then '-' else '+') :: ((toString place.natAbs).toList ++ rest))
      (scaled negative significand (exponent + place)) rest := by
  have digits := (whole_toDigits place.natAbs).digits
  have place_small : Nat.ofDigitChars 10 (Nat.toDigits 10 place.natAbs) 0 < exponentLimit := by
    rwa [Nat.ofDigitChars_ten_toDigits]
  rw [toList_toString]
  by_cases below : place < 0
  · have exponent_eq : exponent + place = exponent - place.natAbs := by omega
    rw [if_pos below, exponent_eq]
    apply (leads_exponentPart_mark (.inl rfl) (.inr (.inr rfl)) digits).trans
    apply (leads_exponentDigits true digits no_digit place_small).trans
    rw [Nat.ofDigitChars_ten_toDigits, if_pos rfl]
    exact .refl _ _
  · have exponent_eq : exponent + place = exponent + place.natAbs := by omega
    rw [if_neg below, exponent_eq]
    apply (leads_exponentPart_mark (.inl rfl) (.inr (.inl rfl)) digits).trans
    apply (leads_exponentDigits false digits no_digit place_small).trans
    rw [Nat.ofDigitChars_ten_toDigits, if_neg (by decide)]
    exact .refl _ _

end Numerals

section Notations

variable {first : Char} {more : List Char}

theorem ofDigitChars_zeros (count : Nat) (text : List Char) :
    Nat.ofDigitChars 10 (zeros count ++ text) 0 = Nat.ofDigitChars 10 text 0 := by
  rw [Nat.ofDigitChars_append, zeros, Nat.ofDigitChars_replicate_zero, Nat.mul_zero]

theorem isDigit_of_mem_zeros {count : Nat} {char : Char} (mem : char ∈ zeros count) :
    char.isDigit = true := by
  rw [List.eq_of_mem_replicate mem]
  rfl

variable (negative) in
theorem leads_double_point (whole : Whole text) (digits : Digits decimals) (ends : Ends rest)
    (small : Nat.ofDigitChars 10 (text ++ decimals) 0 < significandLimit) :
    Leads numeral (signText negative ++ (text ++ '.' :: (decimals ++ rest)))
      (.double <$> scaled negative (Nat.ofDigitChars 10 (text ++ decimals) 0) (-decimals.length))
        rest :=
  (leads_numeral_point negative whole digits ends.noDigit small).trans
    ((leads_exponentPart_none ends).map _)

variable (negative) in
/-- Digits behind the point, with zeros in front of them. -/
theorem leads_positional_below (gap : Nat) (digits : Digits text) (ends : Ends rest)
    (small : Nat.ofDigitChars 10 text 0 < significandLimit) :
    Leads numeral (signText negative ++ (positional text (.negSucc gap) ++ rest))
      (.double <$> scaled negative (Nat.ofDigitChars 10 text 0) (-(gap + text.length : Nat)))
        rest := by
  have value_eq : Nat.ofDigitChars 10 (['0'] ++ (zeros gap ++ text)) 0 =
      Nat.ofDigitChars 10 text 0 :=
    ofDigitChars_zeros (gap + 1) text
  have decimals_are : Digits (zeros gap ++ text) := by
    refine ⟨by simp [digits.1], fun char mem => ?_⟩
    rcases List.mem_append.mp mem with mem | mem
    · exact isDigit_of_mem_zeros mem
    · exact digits.2 char mem
  have read := leads_double_point negative .zero decimals_are ends (value_eq ▸ small)
  rw [value_eq, List.length_append, zeros, List.length_replicate] at read
  exact read

variable (negative) in
/-- Digits in front of the point, with zeros behind them. -/
theorem leads_positional_whole (not_zero : first ≠ '0')
    (digits : ∀ char ∈ first :: more, char.isDigit = true) {place : Nat}
    (short : (first :: more).length ≤ place + 1) (ends : Ends rest)
    (small : Nat.ofDigitChars 10 (first :: more) 0 * 10 ^ (place + 2 - (first :: more).length) <
      significandLimit) :
    Leads numeral (signText negative ++ (positional (first :: more) place ++ rest))
      (.double <$> scaled negative
        (Nat.ofDigitChars 10 (first :: more) 0 * 10 ^ (place + 2 - (first :: more).length)) (-1))
      rest := by
  generalize gap_eq : place + 1 - (first :: more).length = gap
  have count_eq : place + 2 - (first :: more).length = gap + 1 := by omega
  rw [count_eq] at small ⊢
  have value_eq : Nat.ofDigitChars 10 ((first :: more ++ zeros gap) ++ ['0']) 0 =
      Nat.ofDigitChars 10 (first :: more) 0 * 10 ^ (gap + 1) := by
    have zeros_eq : zeros gap ++ ['0'] = List.replicate (gap + 1) '0' := List.replicate_succ'.symm
    rw [List.append_assoc, zeros_eq, Nat.ofDigitChars_append, Nat.ofDigitChars_replicate_zero,
      Nat.mul_comm]
  have whole : Whole (first :: more ++ zeros gap) := by
    refine .positive not_zero fun char mem => ?_
    rcases List.mem_append.mp (List.cons_append ▸ mem) with mem | mem
    · exact digits char mem
    · exact isDigit_of_mem_zeros mem
  have read := leads_double_point negative whole ⟨List.cons_ne_nil '0' [], by simp⟩ ends
    (value_eq ▸ small)
  have text_eq : positional (first :: more) place = (first :: more ++ zeros gap) ++ ['.', '0'] := by
    rw [← gap_eq]
    exact if_pos short
  rw [value_eq] at read
  rw [text_eq, List.append_assoc]
  exact read

variable (negative) in
/-- Digits with a point among them. -/
theorem leads_positional_among (not_zero : first ≠ '0')
    (digits : ∀ char ∈ first :: more, char.isDigit = true) {place : Nat}
    (long : ¬ (first :: more).length ≤ place + 1) (ends : Ends rest)
    (small : Nat.ofDigitChars 10 (first :: more) 0 < significandLimit) :
    Leads numeral (signText negative ++ (positional (first :: more) place ++ rest))
      (.double <$> scaled negative (Nat.ofDigitChars 10 (first :: more) 0)
        (-((first :: more).length - (place + 1) : Nat))) rest := by
  have text_eq : positional (first :: more) place =
      (first :: more).take (place + 1) ++ '.' :: (first :: more).drop (place + 1) :=
    if_neg long
  have whole : Whole ((first :: more).take (place + 1)) :=
    .positive not_zero fun char mem =>
      digits char (List.mem_of_mem_take (List.take_succ_cons ▸ mem))
  have decimals_are : Digits ((first :: more).drop (place + 1)) := by
    refine ⟨?_, fun char mem => digits char (List.mem_of_mem_drop mem)⟩
    rw [ne_eq, List.drop_eq_nil_iff]
    exact long
  have read := leads_double_point negative whole decimals_are ends
    (by rwa [List.take_append_drop])
  rw [List.take_append_drop, List.length_drop] at read
  rw [text_eq, List.append_assoc]
  exact read

variable (negative) in
/-- Digits with a point behind the first, if there are others, and an exponent. -/
theorem leads_scientific (not_zero : first ≠ '0')
    (digits : ∀ char ∈ first :: more, char.isDigit = true) {place : Int}
    (place_small : place.natAbs < exponentLimit) (no_digit : NoDigit rest)
    (small : Nat.ofDigitChars 10 (first :: more) 0 < significandLimit) :
    Leads numeral (signText negative ++ (scientific (first :: more) place ++ rest))
      (.double <$> scaled negative (Nat.ofDigitChars 10 (first :: more) 0) (-more.length + place))
        rest := by
  cases more with
  | nil =>
      have whole : Whole [first] := .positive not_zero digits
      have read := leads_numeral_mark negative whole
        ((if place < 0 then '-' else '+') :: ((toString place.natAbs).toList ++ rest)) small
      exact read.trans ((leads_exponentPart_place place_small no_digit).map _)
  | cons second more =>
      have whole : Whole [first] := .positive not_zero fun char mem =>
        digits char (List.mem_of_mem_take (i := 1) mem)
      have decimals_are : Digits (second :: more) :=
        ⟨List.cons_ne_nil _ _, fun char mem => digits char (List.mem_cons_of_mem _ mem)⟩
      have no_digit' : NoDigit ('e' :: (if place < 0 then '-' else '+') ::
          ((toString place.natAbs).toList ++ rest)) :=
        .cons rfl _
      have read := leads_numeral_point negative whole decimals_are no_digit' small
      have text_eq : scientific (first :: second :: more) place ++ rest =
          [first] ++ '.' :: (second :: more ++ 'e' :: (if place < 0 then '-' else '+') ::
            ((toString place.natAbs).toList ++ rest)) := by
        simp [scientific]
      rw [text_eq]
      exact read.trans ((leads_exponentPart_place place_small no_digit).map _)

end Notations

section Written

variable {double : Double}

theorem toDigits_cons {number : Nat} (positive : 0 < number) :
    ∃ first more, Nat.toDigits 10 number = first :: more ∧ first ≠ '0' ∧
      ∀ char ∈ first :: more, char.isDigit = true := by
  have value_eq := Nat.ofDigitChars_ten_toDigits (n := number)
  have whole := whole_toDigits number
  generalize Nat.toDigits 10 number = text at value_eq whole
  cases whole with
  | zero => exact absurd value_eq (Nat.ne_of_lt positive)
  | positive not_zero digits => exact ⟨_, _, rfl, not_zero, digits⟩

/-- What is written for a decimal that is written positionally. -/
theorem leads_positional (negative : Bool) (positive : 0 < decimal.digits)
    (small : decimal.digits < significandLimit) (place_le : decimal.place ≤ 15) (ends : Ends rest) :
    Leads numeral
      (signText negative ++ (positional (Nat.toDigits 10 decimal.digits) decimal.place ++ rest))
      (.double <$> if 0 ≤ decimal.exponent then scaled negative decimal.padded.digits (-1)
        else scaled negative decimal.digits decimal.exponent) rest := by
  have value_eq := Nat.ofDigitChars_ten_toDigits (n := decimal.digits)
  have digits_lt := (Nat.length_toDigits_le_iff (by decide) Nat.length_toDigits_pos).mp
    (le_refl (Nat.toDigits 10 decimal.digits).length)
  rcases toDigits_cons positive with ⟨first, more, text_eq, not_zero, digits⟩
  have place_eq : decimal.place = (first :: more).length - 1 + decimal.exponent := by
    rw [Decimal.place, text_eq]
  rw [text_eq] at value_eq digits_lt ⊢
  generalize decimal.place = place at place_le place_eq ⊢
  cases place with
  | ofNat place =>
      rw [Int.ofNat_eq_natCast] at place_le place_eq
      by_cases short : (first :: more).length ≤ place + 1
      · have count_eq : place + 2 - (first :: more).length = decimal.exponent.toNat + 1 := by omega
        have padded_lt :
            decimal.digits * 10 ^ (place + 2 - (first :: more).length) < significandLimit :=
          calc decimal.digits * 10 ^ (place + 2 - (first :: more).length)
              < 10 ^ (first :: more).length * 10 ^ (place + 2 - (first :: more).length) :=
                Nat.mul_lt_mul_of_pos_right digits_lt (Nat.pow_pos (by decide))
            _ = 10 ^ (place + 2) := by rw [← Nat.pow_add]; congr 1; omega
            _ ≤ 10 ^ 17 := Nat.pow_le_pow_right (by decide) (by omega)
            _ < significandLimit := by decide
        have read := leads_positional_whole negative not_zero digits short ends (by rwa [value_eq])
        rw [value_eq, count_eq] at read
        rwa [if_pos (by omega)]
      · have exponent_eq :
          decimal.exponent = (-((first :: more).length - (place + 1) : Nat) : Int) := by omega
        rw [if_neg (by omega), exponent_eq]
        have read := leads_positional_among negative not_zero digits short ends (by rwa [value_eq])
        rwa [value_eq] at read
  | negSucc gap =>
      rw [Int.negSucc_eq] at place_eq
      have length_pos : 0 < (first :: more).length := Nat.succ_pos _
      have exponent_eq :
          decimal.exponent = (-(gap + (first :: more).length : Nat) : Int) := by omega
      rw [if_neg (by omega), exponent_eq]
      have read := leads_positional_below negative gap ⟨List.cons_ne_nil _ _, digits⟩ ends
        (by rwa [value_eq])
      rwa [value_eq] at read

/-- What is written for a decimal with an exponent. -/
theorem leads_scientific_decimal (negative : Bool) (positive : 0 < decimal.digits)
    (small : decimal.digits < significandLimit) (place_small : decimal.place.natAbs < exponentLimit)
    (ends : Ends rest) :
    Leads numeral
      (signText negative ++ (scientific (Nat.toDigits 10 decimal.digits) decimal.place ++ rest))
      (.double <$> scaled negative decimal.digits decimal.exponent) rest := by
  have value_eq := Nat.ofDigitChars_ten_toDigits (n := decimal.digits)
  rcases toDigits_cons positive with ⟨first, more, text_eq, not_zero, digits⟩
  have exponent_eq : decimal.exponent = -more.length + decimal.place := by
    rw [Decimal.place, text_eq, List.length_cons]
    omega
  rw [text_eq] at value_eq ⊢
  have read := leads_scientific negative not_zero digits place_small ends.noDigit
    (by rwa [value_eq])
  rwa [value_eq, ← exponent_eq] at read

theorem toList_writeDouble (not_zero : double.isZero = false) :
    (writeDouble double).toList = signText double.isNegative ++
      if -5 ≤ double.shortest.place ∧ double.shortest.place ≤ 15 then
        positional (Nat.toDigits 10 double.shortest.digits) double.shortest.place
      else scientific (Nat.toDigits 10 double.shortest.digits) double.shortest.place := by
  unfold writeDouble NumeralStyle.write
  rw [if_neg (Bool.eq_false_iff.mp not_zero), String.toList_ofList, toList_toString]
  rfl

/-- A double is read as the decimal that is written for it. -/
theorem leads_writeDouble (finite : double.isFinite = true) (ends : Ends rest) :
    Leads numeral ((writeDouble double).toList ++ rest)
      (.double <$> scaled double.isNegative double.written.digits double.written.exponent)
        rest := by
  cases zero : double.isZero with
  | true =>
      have digits : Digits ['0'] := ⟨by simp, by simp⟩
      rw [written, writeDouble, NumeralStyle.write, if_pos zero, if_pos zero, String.toList_ofList,
        List.append_assoc]
      exact leads_double_point double.isNegative .zero digits ends (by decide)
  | false =>
      rcases shortest_spec (significand_pos zero) finite with
        ⟨_, digits_pos, digits_le, exponent_ge, exponent_le⟩
      have small : double.shortest.digits < significandLimit :=
        Nat.lt_of_le_of_lt digits_le (by decide)
      have place_small : double.shortest.place.natAbs < exponentLimit := by
        have length_le : (Nat.toDigits 10 double.shortest.digits).length ≤ 18 :=
          (Nat.length_toDigits_le_iff (by decide) (by decide)).mpr
            (Nat.lt_of_le_of_lt digits_le (by decide))
        have limit_eq : exponentLimit = 2147483648 := rfl
        rw [Decimal.place]
        omega
      have length_pos : 0 < (Nat.toDigits 10 double.shortest.digits).length :=
        Nat.length_toDigits_pos
      have place_eq : double.shortest.place =
          (Nat.toDigits 10 double.shortest.digits).length - 1 + double.shortest.exponent :=
        rfl
      rw [toList_writeDouble zero, written, if_neg (Bool.eq_false_iff.mp zero), List.append_assoc]
      by_cases positionally : -5 ≤ double.shortest.place ∧ double.shortest.place ≤ 15
      · have read := leads_positional double.isNegative digits_pos small positionally.2 ends
        rw [if_pos positionally]
        by_cases whole : 0 ≤ double.shortest.exponent
        · rw [if_pos whole] at read
          rw [if_pos ⟨whole, positionally.2⟩]
          exact read
        · rw [if_neg whole] at read
          rw [if_neg fun both => whole both.1]
          exact read
      · rw [if_neg positionally, if_neg (by omega)]
        exact leads_scientific_decimal double.isNegative digits_pos small place_small ends

theorem positional_cons (first : Char) (more : List Char) (place : Int) :
    ∃ behind, positional (first :: more) place = first :: behind ∨
      positional (first :: more) place = '0' :: behind := by
  cases place with
  | ofNat place =>
      rw [positional]
      split
      · exact ⟨_, .inl rfl⟩
      · exact ⟨_, .inl rfl⟩
  | negSucc gap => exact ⟨_, .inr rfl⟩

theorem scientific_cons (first : Char) (more : List Char) (place : Int) :
    ∃ behind, scientific (first :: more) place = first :: behind := by
  cases more with
  | nil => exact ⟨_, rfl⟩
  | cons second more => exact ⟨_, rfl⟩

/-- A double is written with a digit or a minus sign in front. -/
theorem writeDouble_cons (double : Double) :
    ∃ first more, (writeDouble double).toList = first :: more ∧
      (first = '-' ∨ first.isDigit = true) := by
  have starts {body : List Char}
      (body_starts : ∃ digit behind, body = digit :: behind ∧ digit.isDigit = true) :
      ∃ first more, signText double.isNegative ++ body = first :: more ∧
        (first = '-' ∨ first.isDigit = true) := by
    rcases body_starts with ⟨digit, behind, rfl, isDigit⟩
    cases double.isNegative with
    | true => exact ⟨'-', _, rfl, .inl rfl⟩
    | false => exact ⟨digit, behind, rfl, .inr isDigit⟩
  cases zero : double.isZero with
  | true =>
      rw [writeDouble, NumeralStyle.write, if_pos zero, String.toList_ofList]
      exact starts ⟨'0', _, rfl, rfl⟩
  | false =>
      rcases (whole_toDigits double.shortest.digits).exists_cons with
        ⟨first, more, text_eq, isDigit⟩
      rw [toList_writeDouble zero, text_eq]
      apply starts
      split
      · rcases positional_cons first more double.shortest.place with ⟨behind, body_eq | body_eq⟩
        · exact ⟨first, behind, body_eq, isDigit⟩
        · exact ⟨'0', behind, body_eq, rfl⟩
      · rcases scientific_cons first more double.shortest.place with ⟨behind, body_eq⟩
        exact ⟨first, behind, body_eq, isDigit⟩

end Written

section Whole

variable {number : JsonNumber} {json : Json}

/-- A value that begins as a numeral is a number. -/
theorem reads_value_number {first : Char} {more : List Char}
    (start : first = '-' ∨ first.isDigit = true)
    (reads : Reads numeral (first :: more) number rest) (steps depth : Nat) :
    Reads (value (steps + 1) depth) (first :: more) (.number number) rest := by
  simp only [value]
  apply (reads_skipBlanks_cons .nil (isBlank_of_start start) more).bind
  split
  all_goals simp_all
  rw [map_eq_pure_bind]
  exact reads.bind (.pure _ _)

end Whole

end Scan

/-- A text is a value if a reader of values gets it from all of the text. -/
theorem parse_of_reads {text : String} {json : Json}
    (reads : ∀ steps, Reads (Scan.value (steps + 1) depthLimit) text.toList json []) :
    parse text = .ok json := by
  have blanks : Reads Scan.skipBlanks ([] ++ []) none [] :=
    Scan.reads_skipBlanks .nil (by simp [Solid])
  have finished : Reads Scan.finish [] () [] := blanks.bind (.pure _ _)
  have whole : Reads (do
      let result ← Scan.value (2 * text.length + 2) depthLimit
      Scan.finish
      return result) text.toList json [] :=
    (reads (2 * text.length + 1)).bind (finished.bind (.pure json []))
  rcases whole 0 with ⟨_, read⟩
  rw [parse, Scan.whole, Cursor.start, read]
  rfl

/-- The text of a finite double is read as a number: the decimal that is written, scaled. -/
theorem parse_writeDouble {double scaled : Double} (finite : double.isFinite = true)
    (scaled_eq : ofDecimal? double.written.digits double.written.exponent = some scaled) :
    parse (writeDouble double) = .ok (.number (.double (signed double.isNegative scaled))) := by
  have numeral_read : Reads Scan.numeral ((writeDouble double).toList ++ [])
      (.double (signed double.isNegative scaled)) [] := by
    apply (Scan.leads_writeDouble finite .nil).trans
    rw [map_eq_pure_bind]
    exact (Scan.reads_scaled scaled_eq []).bind (.pure _ _)
  rcases Scan.writeDouble_cons double with ⟨first, more, text_eq, start⟩
  rw [List.append_nil, text_eq] at numeral_read
  refine parse_of_reads fun steps => ?_
  rw [text_eq]
  exact Scan.reads_value_number start numeral_read steps depthLimit

end Json

end Deferral

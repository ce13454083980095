import Deferral.Proofs.Json.Reads
import Mathlib.Data.List.TakeDrop
import Mathlib.Data.Nat.Digits.Defs

/-!
# Numerals are read as a whole

A numeral has a whole part without a leading zero, and it may have a sign, decimals and an exponent.
It ends where nothing follows that could be a part of it. Up to there it is read, and what comes of
it is a number or an error: nothing of it is left unread. A numeral that has nothing but digits is
read as the number that the digits stand for, as long as this fits into a significand.
-/

namespace Deferral.Json

/-- A text does not begin with a digit. -/
def NoDigit (text : List Char) : Prop := ∀ char ∈ text.head?, char.isDigit = false

/-- A text does not begin with anything that could be a part of a numeral in front of it. -/
def Ends (text : List Char) : Prop :=
  ∀ char ∈ text.head?, char.isDigit = false ∧ char ≠ '.' ∧ char ≠ 'e' ∧ char ≠ 'E'

/-- One digit or more. -/
def Digits (text : List Char) : Prop := text ≠ [] ∧ ∀ char ∈ text, char.isDigit = true

/-- Digits of which the first is zero only if there are no others. -/
inductive Whole : List Char → Prop
  | zero : Whole ['0']
  | positive {first : Char} {rest : List Char} (not_zero : first ≠ '0')
      (digits : ∀ char ∈ first :: rest, char.isDigit = true) : Whole (first :: rest)

/-- Nothing, or a decimal point and digits. -/
inductive Decimals : List Char → Prop
  | none : Decimals []
  | point {text : List Char} (digits : Digits text) : Decimals ('.' :: text)

/-- Nothing, or the mark of an exponent, a sign or none, and digits. -/
inductive Exponent : List Char → Prop
  | none : Exponent []
  | mark {mark : Char} {sign text : List Char} (mark_eq : mark = 'e' ∨ mark = 'E')
      (sign_eq : sign = [] ∨ sign = ['+'] ∨ sign = ['-']) (digits : Digits text) :
      Exponent (mark :: sign ++ text)

/-- The text of a number in JSON: a sign or none, the whole part, the decimals and the exponent. -/
inductive Numeral : List Char → Prop
  | parts {sign whole decimals exponent : List Char} (sign_eq : sign = [] ∨ sign = ['-'])
      (whole_is : Whole whole) (decimals_are : Decimals decimals)
      (exponent_is : Exponent exponent) :
      Numeral (sign ++ whole ++ decimals ++ exponent)

/-- The digits of a number have no leading zero. -/
theorem whole_toDigits (number : Nat) : Whole (Nat.toDigits 10 number) := by
  have digits : ∀ char ∈ Nat.toDigits 10 number, char.isDigit = true := fun char mem =>
    Nat.isDigit_of_mem_toDigits (by decide) (by decide) mem
  induction number using Nat.strongRecOn with
  | ind number ih =>
      rcases Nat.lt_or_ge number 10 with small | large
      · have all : ∀ digit < 10, digit = 0 ∨ Nat.digitChar digit ≠ '0' := by decide
        rw [Nat.toDigits_of_lt_base small] at digits ⊢
        rcases all number small with rfl | not_zero
        · exact .zero
        · exact .positive not_zero digits
      · have front := ih (number / 10) (by omega) fun char mem =>
          Nat.isDigit_of_mem_toDigits (by decide) (by decide) mem
        rw [Nat.toDigits_of_base_le (by decide) large] at digits ⊢
        generalize front_eq : Nat.toDigits 10 (number / 10) = text at front digits ⊢
        cases front with
        | zero =>
            have zero := Nat.ofDigitChars_ten_toDigits (n := number / 10)
            rw [front_eq] at zero
            have : Nat.ofDigitChars 10 ['0'] 0 = 0 := rfl
            omega
        | positive not_zero _ => exact .positive not_zero digits

theorem toList_toString (number : Nat) : (toString number).toList = Nat.toDigits 10 number := by
  rw [Nat.toString_eq_ofList_toDigits, String.toList_ofList]

theorem toList_toString_negSucc (gap : Nat) :
    (toString (Int.negSucc gap)).toList = ['-'] ++ Nat.toDigits 10 (gap + 1) := by
  show ("-" ++ toString (gap + 1)).toList = _
  rw [String.toList_append, toList_toString]
  rfl

/-- What is written for an integer is a numeral. -/
theorem numeral_toString_nat (number : Nat) : Numeral (toString number).toList := by
  rw [toList_toString]
  simpa using Numeral.parts (.inl rfl) (whole_toDigits number) .none .none

theorem numeral_toString_int (number : Int) : Numeral (toString number).toList := by
  cases number with
  | ofNat number => exact numeral_toString_nat number
  | negSucc gap =>
      rw [toList_toString_negSucc]
      simpa using Numeral.parts (.inr rfl) (whole_toDigits (gap + 1)) .none .none

/-- The digits of a text as numbers. -/
abbrev digitValues (text : List Char) : List Nat := text.map fun digit => digit.toNat - '0'.toNat

section Following

variable {text rest : List Char}

theorem Ends.noDigit (ends : Ends rest) : NoDigit rest :=
  fun char first => (ends char first).1

theorem Ends.nil : Ends [] := by
  simp [Ends]

theorem NoDigit.cons {char : Char} (no_digit : char.isDigit = false) (rest : List Char) :
    NoDigit (char :: rest) := by
  simpa [NoDigit] using no_digit

theorem Whole.digits (whole : Whole text) : Digits text := by
  cases whole with
  | zero => exact ⟨by simp, by simp⟩
  | positive not_zero digits => exact ⟨by simp, digits⟩

theorem toNat_ne_of_isDigit {digit : Char} (isDigit : digit.isDigit = true)
    (not_zero : digit ≠ '0') :
    digit.toNat - '0'.toNat ≠ 0 := by
  intro zero
  have bounds := Char.isDigit_iff_toNat.mp isDigit
  exact not_zero (Char.toNat_inj.mp (by omega))

theorem Whole.no_leading_zero (whole : Whole text) :
    ¬ ((digitValues text).head? = some 0 ∧ 1 < (digitValues text).length) := by
  cases whole with
  | zero => simp
  | positive not_zero digits =>
      have not_zero := toNat_ne_of_isDigit (List.forall_mem_cons.mp digits).1 not_zero
      rintro ⟨zero, _⟩
      exact not_zero (Option.some.inj zero)

theorem Whole.exists_cons (whole : Whole text) :
    ∃ digit more, text = digit :: more ∧ digit.isDigit = true := by
  rcases whole.digits with ⟨not_empty, digits⟩
  rcases List.exists_cons_of_ne_nil not_empty with ⟨digit, more, rfl⟩
  exact ⟨digit, more, rfl, digits digit List.mem_cons_self⟩

end Following

section Absorbing

variable {limit : Nat} {text : List Char} {sofar : Nat}

theorem le_ofDigitChars (text : List Char) (sofar : Nat) :
    sofar ≤ Nat.ofDigitChars 10 text sofar := by
  rw [Nat.ofDigitChars_eq_ofDigitChars_zero]
  have positive := Nat.pow_pos (n := text.length) (show 0 < 10 by decide)
  have scaled := Nat.mul_le_mul_right sofar positive
  omega

/-- Digits that do not go beyond the limit are all taken. -/
theorem absorb_of_lt (small : Nat.ofDigitChars 10 text sofar < limit) :
    absorb limit sofar (digitValues text) = (Nat.ofDigitChars 10 text sofar, text.length) := by
  induction text generalizing sofar with
  | nil => rfl
  | cons digit text ih =>
      rw [Nat.ofDigitChars_cons, Nat.mul_comm] at small
      have fits := Nat.lt_of_le_of_lt (le_ofDigitChars text _) small
      simp only [digitValues, List.map_cons, absorb, if_pos fits, Nat.ofDigitChars_cons,
        List.length_cons]
      rw [ih small, Nat.mul_comm 10]

end Absorbing

namespace Scan

variable {text rest : List Char} {negative : Bool} {significand : Nat} {exponent : Int}

theorem reads_digits (digits : ∀ char ∈ text, char.isDigit = true) (no_digit : NoDigit rest) :
    Reads Scan.digits (text ++ rest) (digitValues text) rest := by
  intro offset
  have stops : rest.dropWhile Char.isDigit = rest ∧ rest.takeWhile Char.isDigit = [] := by
    cases rest with
    | nil => exact ⟨rfl, rfl⟩
    | cons char rest => simp [no_digit char rfl]
  have spanned : (text ++ rest).span Char.isDigit = (text, rest) := by
    rw [List.span_eq_takeWhile_dropWhile, List.takeWhile_append_of_pos digits,
      List.dropWhile_append_of_pos digits, stops.1, stops.2, List.append_nil]
  refine ⟨offset + text.length, ?_⟩
  simp only [Scan.digits, spanned]
  rfl

theorem settles_scaled : Settles (scaled negative significand exponent) rest rest := by
  cases scaled_eq : Double.ofDecimal? significand exponent with
  | none =>
      refine .inr fun offset => ⟨⟨.numberOutOfRange, offset⟩, trivial, ?_⟩
      simp only [scaled, scaled_eq]
      rfl
  | some double =>
      refine .inl ⟨signed negative double, fun offset => ⟨offset, ?_⟩⟩
      simp only [scaled, scaled_eq]

section Exponents

theorem leads_exponentPart_none (ends : Ends rest) :
    Leads (exponentPart negative significand exponent) rest
      (scaled negative significand exponent) rest := by
  apply (reads_peek rest).leads.trans
  cases rest with
  | nil => exact .refl _ _
  | cons char rest =>
      rcases ends char rfl with ⟨_, _, not_e, not_E⟩
      simp only [List.head?_cons]
      split
      · simp_all
      · simp_all
      · exact .refl _ _

/-- The sign of an exponent stands in front of a digit. -/
theorem reads_exponentSign {sign : List Char} (sign_eq : sign = [] ∨ sign = ['+'] ∨ sign = ['-'])
    {digit : Char} (isDigit : digit.isDigit = true) (rest : List Char) :
    Reads exponentSign (sign ++ digit :: rest) (decide (sign = ['-'])) (digit :: rest) := by
  apply (reads_peek _).bind
  rcases sign_eq with rfl | rfl | rfl
  · simp only [List.nil_append, List.head?_cons]
    split
    · simp_all
    · simp_all
    · exact .pure _ _
  · exact (reads_advance _ _).bind (.pure _ _)
  · exact (reads_advance _ _).bind (.pure _ _)

/-- Behind the mark there are a sign, if any, and the digits of the exponent. -/
theorem leads_exponentPart_mark {mark : Char} {sign : List Char} (mark_eq : mark = 'e' ∨ mark = 'E')
    (sign_eq : sign = [] ∨ sign = ['+'] ∨ sign = ['-']) (digits : Digits text) :
    Leads (exponentPart negative significand exponent) (mark :: (sign ++ (text ++ rest)))
      (exponentDigits negative significand exponent (sign = ['-'])) (text ++ rest) := by
  rcases digits with ⟨not_empty, digits⟩
  rcases List.exists_cons_of_ne_nil not_empty with ⟨digit, more, rfl⟩
  have isDigit := digits digit List.mem_cons_self
  have signed := reads_exponentSign sign_eq isDigit (more ++ rest)
  apply (reads_peek _).leads.trans
  rcases mark_eq with rfl | rfl
  · apply (reads_advance _ _).leads.trans
    apply signed.leads.trans
    apply (reads_peek _).leads.trans
    simpa [isDigit] using Leads.refl _ _
  · apply (reads_advance _ _).leads.trans
    apply signed.leads.trans
    apply (reads_peek _).leads.trans
    simpa [isDigit] using Leads.refl _ _

theorem exponentDigits_apply (down : Bool) (digits : Digits text) (no_digit : NoDigit rest)
    (offset : Nat) :
    ∃ behind, exponentDigits negative significand exponent down ⟨offset, text ++ rest⟩ =
      match absorb exponentLimit 0 (digitValues text) with
      | (shift, used) =>
        if used = (digitValues text).length then
          scaled negative significand (if down then exponent - shift else exponent + shift)
            ⟨behind, rest⟩
        else if significand = 0 ∨ down then .ok (signed negative (.ofNat 0), ⟨behind, rest⟩)
        else .error ⟨.numberOutOfRange, offset + used + 1⟩ := by
  rcases reads_digits digits.2 no_digit offset with ⟨behind, read⟩
  refine ⟨behind, ?_⟩
  rw [exponentDigits, read]
  rfl

/-- An exponent that is small enough is added to what the decimals made of it. -/
theorem leads_exponentDigits (down : Bool) (digits : Digits text) (no_digit : NoDigit rest)
    (small : Nat.ofDigitChars 10 text 0 < exponentLimit) :
    Leads (exponentDigits negative significand exponent down) (text ++ rest)
      (scaled negative significand
        (if down then exponent - Nat.ofDigitChars 10 text 0
          else exponent + Nat.ofDigitChars 10 text 0)) rest := by
  intro offset
  rcases exponentDigits_apply down digits no_digit offset with ⟨behind, read⟩
  refine ⟨behind, read.trans ?_⟩
  rw [absorb_of_lt small]
  exact if_pos (List.length_map _).symm

theorem settles_exponentDigits (down : Bool) (digits : Digits text) (no_digit : NoDigit rest) :
    Settles (exponentDigits negative significand exponent down) (text ++ rest) rest := by
  have applied (offset : Nat) :=
    @exponentDigits_apply _ rest negative significand exponent down digits no_digit offset
  generalize absorb exponentLimit 0 (digitValues text) = absorbed at applied
  rcases absorbed with ⟨shift, used⟩
  dsimp only at applied
  by_cases all : used = (digitValues text).length
  · simp only [if_pos all] at applied
    exact Leads.settles applied settles_scaled
  · simp only [if_neg all] at applied
    by_cases zero : significand = 0 ∨ down
    · simp only [if_pos zero] at applied
      exact .inl ⟨_, applied⟩
    · simp only [if_neg zero] at applied
      refine .inr fun offset => ?_
      rcases applied offset with ⟨_, refused⟩
      exact ⟨_, trivial, refused⟩

theorem settles_exponentPart {written : List Char} (exponent_is : Exponent written)
    (ends : Ends rest) :
    Settles (exponentPart negative significand exponent) (written ++ rest) rest := by
  cases exponent_is with
  | none => exact (leads_exponentPart_none ends).settles settles_scaled
  | mark mark_eq sign_eq digits =>
      rw [List.cons_append, List.cons_append, List.append_assoc]
      exact (leads_exponentPart_mark mark_eq sign_eq digits).settles
        (settles_exponentDigits _ digits ends.noDigit)

end Exponents

/-- The decimals go into the significand, as far as it has room for them. -/
theorem leads_fractionPart (digits : Digits text) (no_digit : NoDigit rest) :
    Leads (fractionPart negative significand exponent) (text ++ rest)
      (exponentPart negative (absorb significandLimit significand (digitValues text)).1
        (exponent - (absorb significandLimit significand (digitValues text)).2)) rest := by
  rcases digits with ⟨not_empty, digits⟩
  apply (reads_digits digits no_digit).leads.trans
  rw [if_neg (by simpa using not_empty)]
  exact .refl _ _

section WholePart

variable (negative) in
/-- Behind the whole part there is a point. -/
theorem leads_unsignedNumeral_point (whole : Whole text) (rest : List Char) :
    Leads (unsignedNumeral negative) (text ++ '.' :: rest)
      (.double <$> fractionPart negative (absorb significandLimit 0 (digitValues text)).1
        ((digitValues text).length - (absorb significandLimit 0 (digitValues text)).2 : Nat))
      rest := by
  apply (reads_digits whole.digits.2 (.cons rfl rest)).leads.trans
  rw [if_neg whole.no_leading_zero]
  exact (reads_peek _).leads.trans (reads_advance _ _).leads

variable (negative) in
/-- Behind the whole part there is the mark of an exponent. -/
theorem leads_unsignedNumeral_mark (whole : Whole text) {mark : Char}
    (mark_eq : mark = 'e' ∨ mark = 'E') (rest : List Char) :
    Leads (unsignedNumeral negative) (text ++ mark :: rest)
      (.double <$> exponentPart negative (absorb significandLimit 0 (digitValues text)).1
        ((digitValues text).length - (absorb significandLimit 0 (digitValues text)).2 : Nat))
      (mark :: rest) := by
  have no_digit : mark.isDigit = false := by rcases mark_eq with rfl | rfl <;> rfl
  apply (reads_digits whole.digits.2 (.cons no_digit rest)).leads.trans
  rw [if_neg whole.no_leading_zero]
  apply (reads_peek _).leads.trans
  rcases mark_eq with rfl | rfl
  · exact .refl _ _
  · exact .refl _ _

variable (negative) in
/-- Behind the whole part there is nothing that belongs to the numeral. -/
theorem leads_unsignedNumeral_end (whole : Whole text) (ends : Ends rest) :
    Leads (unsignedNumeral negative) (text ++ rest)
      (if (digitValues text).length - (absorb significandLimit 0 (digitValues text)).2 = 0 then
        pure (wholeNumber negative (absorb significandLimit 0 (digitValues text)).1)
      else .double <$> scaled negative (absorb significandLimit 0 (digitValues text)).1
        ((digitValues text).length - (absorb significandLimit 0 (digitValues text)).2 : Nat))
      rest := by
  apply (reads_digits whole.digits.2 ends.noDigit).leads.trans
  rw [if_neg whole.no_leading_zero]
  apply (reads_peek rest).leads.trans
  cases rest with
  | nil => exact .refl _ _
  | cons char rest =>
      rcases ends char rfl with ⟨_, not_point, not_e, not_E⟩
      simp only [List.head?_cons]
      split
      · simp_all
      · simp_all
      · simp_all
      · exact .refl _ _

/-- The digits of a number that fits into a significand are read as the number. -/
theorem reads_wholeNumber (whole : Whole text) (ends : Ends rest)
    (small : Nat.ofDigitChars 10 text 0 < significandLimit) :
    Reads (unsignedNumeral negative) (text ++ rest)
      (wholeNumber negative (Nat.ofDigitChars 10 text 0)) rest := by
  have read := leads_unsignedNumeral_end negative whole ends
  rwa [absorb_of_lt small, if_pos (by simp)] at read

theorem settles_unsignedNumeral {decimals exponent : List Char} (whole : Whole text)
    (decimals_are : Decimals decimals) (exponent_is : Exponent exponent) (ends : Ends rest) :
    Settles (unsignedNumeral negative) (text ++ (decimals ++ (exponent ++ rest))) rest := by
  cases decimals_are with
  | none =>
      cases exponent_is with
      | none =>
          apply (leads_unsignedNumeral_end negative whole ends).settles
          split
          · exact (Reads.pure _ _).settles
          · exact settles_scaled.map _
      | mark mark_eq sign_eq digits =>
          apply (leads_unsignedNumeral_mark negative whole mark_eq _).settles
          exact (settles_exponentPart (.mark mark_eq sign_eq digits) ends).map _
  | point digits =>
      have no_digit : NoDigit (exponent ++ rest) := by
        cases exponent_is with
        | none => exact ends.noDigit
        | mark mark_eq _ _ => exact .cons (by rcases mark_eq with rfl | rfl <;> rfl) _
      apply (leads_unsignedNumeral_point negative whole _).settles
      apply Settles.map
      exact (leads_fractionPart digits no_digit).settles (settles_exponentPart exponent_is ends)

end WholePart

/-- A sign in front of digits is taken into account. -/
theorem leads_numeral (whole : Whole text) {sign : List Char} (sign_eq : sign = [] ∨ sign = ['-'])
    (rest : List Char) :
    Leads numeral (sign ++ (text ++ rest)) (unsignedNumeral (sign = ['-'])) (text ++ rest) := by
  rcases whole.exists_cons with ⟨digit, more, rfl, isDigit⟩
  apply (reads_peek _).leads.trans
  rcases sign_eq with rfl | rfl
  · have not_minus : digit ≠ '-' := by rintro rfl; cases isDigit
    simp only [List.nil_append, List.cons_append, List.head?_cons]
    split
    · simp_all
    · exact .refl _ _
  · apply (reads_advance _ _).leads.trans
    apply (reads_peek _).leads.trans
    simpa [isDigit] using Leads.refl _ _

/-- A numeral is read up to its end. -/
theorem settles_numeral {written : List Char} (numeral : Numeral written) (ends : Ends rest) :
    Settles Scan.numeral (written ++ rest) rest := by
  rcases numeral with ⟨sign_eq, whole, decimals, exponent⟩
  simp only [List.append_assoc]
  exact (leads_numeral whole sign_eq _).settles
    (settles_unsignedNumeral whole decimals exponent ends)

section Integers

theorem reads_natural (value : UInt64) (ends : Ends rest) :
    Reads numeral ((toString value.toNat).toList ++ rest) (.natural value) rest := by
  have whole := whole_toDigits value.toNat
  have small : Nat.ofDigitChars 10 (Nat.toDigits 10 value.toNat) 0 < significandLimit := by
    rw [Nat.ofDigitChars_ten_toDigits]
    exact value.toNat_lt
  have read := @reads_wholeNumber _ rest false whole ends small
  rw [Nat.ofDigitChars_ten_toDigits] at read
  rw [toList_toString]
  have value_eq : wholeNumber false value.toNat = .natural value := by
    simp [wholeNumber]
  rw [value_eq] at read
  exact (leads_numeral whole (.inl rfl) rest).trans read

theorem reads_negative {value : Int64} (below : value < 0) (ends : Ends rest) :
    Reads numeral ((toString value.toInt).toList ++ rest) (.negative value) rest := by
  have least := value.le_toInt
  rcases Int.eq_negSucc_of_lt_zero (Int64.lt_iff_toInt_lt.mp below) with ⟨gap, int_eq⟩
  have whole := whole_toDigits (gap + 1)
  have gap_lt : gap + 1 ≤ Double.signWeight := by
    have signWeight_eq : Double.signWeight = 9223372036854775808 := rfl
    omega
  have small : Nat.ofDigitChars 10 (Nat.toDigits 10 (gap + 1)) 0 < significandLimit := by
    rw [Nat.ofDigitChars_ten_toDigits]
    exact Nat.lt_of_le_of_lt gap_lt (by decide)
  have read := @reads_wholeNumber _ rest true whole ends small
  rw [Nat.ofDigitChars_ten_toDigits] at read
  have value_eq : wholeNumber true (gap + 1) = .negative value := by
    have not_large : ¬ Double.signWeight < gap + 1 := by omega
    have neg_eq : (-((gap + 1 : Nat) : Int)) = value.toInt := by rw [int_eq]; rfl
    rw [wholeNumber, if_neg (by simp), if_neg (by simpa using not_large), neg_eq, Int64.ofInt_toInt]
  rw [value_eq] at read
  rw [int_eq, toList_toString_negSucc, List.append_assoc]
  exact (leads_numeral whole (.inr rfl) rest).trans read

end Integers

end Scan

end Deferral.Json

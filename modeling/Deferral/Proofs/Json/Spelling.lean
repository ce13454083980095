import Deferral.Json.Skip
import Deferral.Proofs.Codec.Texts
import Deferral.Proofs.Json.Reads

/-!
# How texts may be spelled

Between quotes a character may be spelled as itself, by a one-letter escape, by the code of its
UTF-16 unit, or by the codes of the pair of units that it consists of. Whichever way is taken, the
text is read as the characters that are meant. To read past a text it is enough that its escapes
have the right form: a unit need not belong to a character.
-/

namespace Deferral.Json

/-- Four hexadecimal digits of a UTF-16 unit. -/
inductive Code : List Char → Nat → Prop
  | digits {first second third fourth : Char} {a b c d : Nat} (first_eq : hexDigit? first = some a)
      (second_eq : hexDigit? second = some b) (third_eq : hexDigit? third = some c)
      (fourth_eq : hexDigit? fourth = some d) :
      Code [first, second, third, fourth] (16 * (16 * (16 * a + b) + c) + d)

/-- Ways to spell a character between quotes. -/
inductive SpellsChar : List Char → Char → Prop
  | itself {char : Char} (not_quote : char ≠ '"') (not_backslash : char ≠ '\\')
      (large : ¬ char.toNat < 0x20) : SpellsChar [char] char
  | short {letter char : Char} (meant : shortEscape? letter = some char) :
      SpellsChar ['\\', letter] char
  | code {digits : List Char} {unit : Nat} (code : Code digits unit)
      (not_low : isLowSurrogate unit = false) (not_high : isHighSurrogate unit = false) :
      SpellsChar ('\\' :: 'u' :: digits) (.ofNat unit)
  | pair {digits digits' : List Char} {high low : Nat} (code : Code digits high)
      (code' : Code digits' low) (is_high : isHighSurrogate high = true)
      (is_low : isLowSurrogate low = true) :
      SpellsChar ('\\' :: 'u' :: digits ++ '\\' :: 'u' :: digits') (ofSurrogates high low)

/-- A spelling of characters, one after the other. -/
inductive Spells : List Char → List Char → Prop
  | nil : Spells [] []
  | cons {written spelled chars : List Char} {char : Char} (first : SpellsChar written char)
      (rest : Spells spelled chars) : Spells (written ++ spelled) (char :: chars)

/-- What may stand between quotes: characters, escapes and codes of any units. -/
inductive Quoted : List Char → Prop
  | nil : Quoted []
  | itself {char : Char} {rest : List Char} (not_quote : char ≠ '"') (not_backslash : char ≠ '\\')
      (large : ¬ char.toNat < 0x20) (quoted : Quoted rest) : Quoted (char :: rest)
  | short {letter : Char} {rest : List Char} (known : (shortEscape? letter).isSome = true)
      (quoted : Quoted rest) : Quoted ('\\' :: letter :: rest)
  | code {digits rest : List Char} {unit : Nat} (code : Code digits unit) (quoted : Quoted rest) :
      Quoted ('\\' :: 'u' :: digits ++ rest)

/-- What spells characters may stand between quotes. -/
theorem Spells.quoted {spelled chars : List Char} (spells : Spells spelled chars) :
    Quoted spelled := by
  induction spells with
  | nil => exact .nil
  | cons first _ ih =>
      cases first with
      | itself not_quote not_backslash large => exact .itself not_quote not_backslash large ih
      | short meant => exact .short (Option.isSome_of_mem meant) ih
      | code code _ _ => exact .code code ih
      | pair code code' _ _ =>
          rw [List.append_assoc]
          exact .code code (.code code' ih)

theorem not_code_of_shortEscape? {letter char : Char} (meant : shortEscape? letter = some char) :
    letter ≠ 'u' := by
  rintro rfl
  cases meant

section Reading

variable {read rest : List Char}

/-- Four digits are read as their unit, whatever is to be done with it. -/
theorem Code.readText {digits : List Char} {unit : Nat} (code : Code digits unit)
    (high : Option Nat) (offset : Nat) :
    Json.readText (.code high 0 0) read offset (digits ++ rest) =
      match high with
      | some high =>
        if isLowSurrogate unit then
          Json.readText .plain (ofSurrogates high unit :: read) (offset + 4) rest
        else .error ⟨.loneSurrogate, offset + 4⟩
      | none =>
        if isLowSurrogate unit then .error ⟨.loneSurrogate, offset + 4⟩
        else if isHighSurrogate unit then
          Json.readText (.secondBackslash unit) read (offset + 4) rest
        else Json.readText .plain (.ofNat unit :: read) (offset + 4) rest := by
  rcases code with ⟨first_eq, second_eq, third_eq, fourth_eq⟩
  simp only [List.cons_append, List.nil_append, Json.readText, first_eq, second_eq, third_eq,
    fourth_eq, Nat.mul_zero, Nat.zero_add, Nat.add_assoc]
  rfl

theorem SpellsChar.readText {written : List Char} {char : Char} (spells : SpellsChar written char)
    (offset : Nat) :
    ∃ offset', Json.readText .plain read offset (written ++ rest) =
      Json.readText .plain (char :: read) offset' rest := by
  cases spells with
  | itself not_quote not_backslash large =>
      refine ⟨offset + char.utf8Size, ?_⟩
      simp [Json.readText, not_quote, not_backslash, large]
  | short meant =>
      refine ⟨offset + 1 + 1, ?_⟩
      simp [Json.readText, meant, not_code_of_shortEscape? meant]
  | code code not_low not_high =>
      refine ⟨offset + 1 + 1 + 4, ?_⟩
      simp [Json.readText, code.readText, not_low, not_high]
  | pair code code' is_high is_low =>
      have not_low {unit : Nat} (is_high : isHighSurrogate unit = true) :
          isLowSurrogate unit = false := by
        simp only [isHighSurrogate, isLowSurrogate, Bool.and_eq_true, Bool.and_eq_false_iff,
          decide_eq_true_eq, decide_eq_false_iff_not] at is_high ⊢
        omega
      refine ⟨offset + 1 + 1 + 4 + 1 + 1 + 4, ?_⟩
      simp [Json.readText, code.readText, code'.readText, is_high, is_low, not_low is_high]

theorem Spells.readText {spelled chars : List Char} (spells : Spells spelled chars) (offset : Nat) :
    ∃ offset', Json.readText .plain read offset (spelled ++ '"' :: rest) =
      .ok (read.reverse ++ chars, ⟨offset', rest⟩) := by
  induction spells generalizing read offset with
  | nil => exact ⟨offset + 1, by simp [Json.readText]⟩
  | cons first _ ih =>
      rcases first.readText offset with ⟨between, first_eq⟩
      rcases @ih (_ :: read) between with ⟨offset', rest_eq⟩
      refine ⟨offset', ?_⟩
      rw [List.append_assoc, first_eq, rest_eq]
      simp

/-- A spelled text is read as the characters that it spells, up to the quote that closes it. -/
theorem Spells.reads {spelled : List Char} {text : String} (spells : Spells spelled text.toList)
    (rest : List Char) : Reads Scan.text (spelled ++ '"' :: rest) text rest := by
  intro offset
  have read : ∃ offset', Json.readText .plain [] offset (spelled ++ '"' :: rest) =
      .ok (text.toList, ⟨offset', rest⟩) :=
    spells.readText offset
  rcases read with ⟨offset', read⟩
  refine ⟨offset', ?_⟩
  show (Json.readText .plain [] offset (spelled ++ '"' :: rest) >>= fun read =>
    Except.ok (String.ofList read.1, read.2)) = _
  rw [read]
  show Except.ok (String.ofList text.toList, (⟨offset', rest⟩ : Cursor)) = Except.ok (text, _)
  rw [String.ofList_toList]

end Reading

theorem Written.spells {char : Char} {written : List Char} (writes : Written char written) :
    SpellsChar written char := by
  cases writes with
  | itself not_quote not_backslash large => exact .itself not_quote not_backslash large
  | short meant => exact .short meant
  | code small =>
      have zero : hexDigit? '0' = some 0 := by decide
      have unit_eq : 16 * (16 * (16 * 0 + 0) + char.toNat / 16) + char.toNat % 16 = char.toNat := by
        omega
      have code := Code.digits zero zero (hexDigit_spec (char.toNat / 16) (by omega)).1
        (hexDigit_spec (char.toNat % 16) (by omega)).1
      rw [unit_eq] at code
      have not_low : isLowSurrogate char.toNat = false := by
        simp only [isLowSurrogate, Bool.and_eq_false_iff, decide_eq_false_iff_not]
        omega
      have not_high : isHighSurrogate char.toNat = false := by
        simp only [isHighSurrogate, Bool.and_eq_false_iff, decide_eq_false_iff_not]
        omega
      simpa using SpellsChar.code code not_low not_high

/-- What is written for a text spells the text. -/
theorem spells_flatMap_writeChar (chars : List Char) : Spells (chars.flatMap writeChar) chars := by
  induction chars with
  | nil => exact .nil
  | cons char chars ih =>
      rw [List.flatMap_cons]
      exact .cons (written_writeChar char).spells ih

section Skipping

variable {rest : List Char}

theorem Code.skipText {digits : List Char} {unit : Nat} (code : Code digits unit) (offset : Nat) :
    Json.skipText (.code none 0 0) offset (digits ++ rest) =
      Json.skipText .plain (offset + 4) rest := by
  rcases code with ⟨first_eq, second_eq, third_eq, fourth_eq⟩
  simp [Json.skipText, first_eq, second_eq, third_eq, fourth_eq, Nat.add_assoc]

/-- What is quoted is read past up to the quote that closes it. -/
theorem Quoted.skipText {text : List Char} (quoted : Quoted text) (offset : Nat) :
    ∃ offset', Json.skipText .plain offset (text ++ '"' :: rest) = .ok ⟨offset', rest⟩ := by
  induction quoted generalizing offset with
  | nil => exact ⟨offset + 1, by simp [Json.skipText]⟩
  | @itself char _ not_quote not_backslash large _ ih =>
      rcases ih (offset + char.utf8Size) with ⟨offset', skipped⟩
      exact ⟨offset', by simp [Json.skipText, not_quote, not_backslash, large, skipped]⟩
  | short known _ ih =>
      rcases Option.isSome_iff_exists.mp known with ⟨_, meant⟩
      rcases ih (offset + 1 + 1) with ⟨offset', skipped⟩
      exact ⟨offset', by simp [Json.skipText, known, not_code_of_shortEscape? meant, skipped]⟩
  | code code _ ih =>
      rcases ih (offset + 1 + 1 + 4) with ⟨offset', skipped⟩
      exact ⟨offset', by simp [Json.skipText, code.skipText, skipped]⟩

theorem Quoted.reads_skipString {text : List Char} (quoted : Quoted text) (rest : List Char) :
    Reads Scan.skipString (text ++ '"' :: rest) () rest := by
  intro offset
  have skipped : ∃ offset', Json.skipText .plain offset (text ++ '"' :: rest) =
      .ok ⟨offset', rest⟩ :=
    quoted.skipText offset
  rcases skipped with ⟨offset', skipped⟩
  refine ⟨offset', ?_⟩
  show (Json.skipText .plain offset (text ++ '"' :: rest) >>= fun cursor =>
    Except.ok ((), cursor)) = _
  rw [skipped]
  rfl

end Skipping

end Deferral.Json

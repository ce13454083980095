import Deferral.Codec.Primitive
import Mathlib.Tactic.SplitIfs

/-!
# Texts come back from their JSON form

A character is written as itself, as an escape of one letter, or as an escape by code. What is
written is read as that character and ends where it was written, whatever is read behind it. So a
text between quotes is read up to its own closing quote and no further, and the text of a string
decodes to that string alone.
-/

namespace Deferral

namespace Json

theorem hexDigit_spec (value : Nat) (small : value < 16) :
    hexDigit? (hexDigit value) = some value ∧ (hexDigit value).utf8Size = 1 := by
  have all : ∀ value < 16,
      hexDigit? (hexDigit value) = some value ∧ (hexDigit value).utf8Size = 1 := by decide
  exact all value small

/-- The three forms in which a character is written. -/
inductive Written (char : Char) : List Char → Prop
  | itself (not_quote : char ≠ '"') (not_backslash : char ≠ '\\') (large : ¬ char.toNat < 0x20) :
      Written char [char]
  | short {letter : Char} (meant : shortEscape? letter = some char) (not_code : letter ≠ 'u')
      (one_byte : letter.utf8Size = 1) : Written char ['\\', letter]
  | code (small : char.toNat < 0x20) :
      Written char
        ['\\', 'u', '0', '0', hexDigit (char.toNat / 16), hexDigit (char.toNat % 16)]

theorem written_writeChar (char : Char) : Written char (writeChar char) := by
  unfold writeChar
  split_ifs with quote backslash backspace tab lineFeed formFeed carriageReturn control
  · subst quote
    exact .short rfl (by decide) rfl
  · subst backslash
    exact .short rfl (by decide) rfl
  · subst backspace
    exact .short rfl (by decide) rfl
  · subst tab
    exact .short rfl (by decide) rfl
  · subst lineFeed
    exact .short rfl (by decide) rfl
  · subst formFeed
    exact .short rfl (by decide) rfl
  · subst carriageReturn
    exact .short rfl (by decide) rfl
  · exact .code control
  · exact .itself quote backslash control

/-- What is written for a character is read as this character. -/
theorem Written.readText {char : Char} {written : List Char} (writes : Written char written)
    (read : List Char) (offset : Nat) (rest : List Char) :
    readText .plain read offset (written ++ rest) =
      readText .plain (char :: read) (offset + byteCount written) rest := by
  cases writes with
  | itself not_quote not_backslash large =>
      simp [Json.readText, byteCount, not_quote, not_backslash, large]
  | short meant not_code one_byte =>
      have backslash_byte : '\\'.utf8Size = 1 := by decide
      simp [Json.readText, byteCount, meant, not_code, one_byte, backslash_byte]
  | code small =>
      rcases hexDigit_spec (char.toNat / 16) (by omega) with ⟨upper, upper_byte⟩
      rcases hexDigit_spec (char.toNat % 16) (by omega) with ⟨lower, lower_byte⟩
      have zero : hexDigit? '0' = some 0 := by decide
      have value_eq : 16 * (char.toNat / 16) + char.toNat % 16 = char.toNat := by omega
      have not_low : isLowSurrogate char.toNat = false := by
        simp only [isLowSurrogate, Bool.and_eq_false_iff, decide_eq_false_iff_not]
        omega
      have not_high : isHighSurrogate char.toNat = false := by
        simp only [isHighSurrogate, Bool.and_eq_false_iff, decide_eq_false_iff_not]
        omega
      have bytes : byteCount ['\\', 'u', '0', '0', hexDigit (char.toNat / 16),
          hexDigit (char.toNat % 16)] = 6 := by
        simp only [byteCount, upper_byte, lower_byte]
        decide
      rw [bytes]
      simp [Json.readText, zero, upper, lower, value_eq, not_low, not_high]

theorem byteCount_append (first second : List Char) :
    byteCount (first ++ second) = byteCount first + byteCount second := by
  induction first with
  | nil => simp [byteCount]
  | cons char first ih => simp [byteCount, ih, Nat.add_assoc]

/-- A text is read up to the quote that closes it. -/
theorem readText_flatMap (text read : List Char) (offset : Nat) (rest : List Char) :
    readText .plain read offset (text.flatMap writeChar ++ '"' :: rest) =
      .ok (read.reverse ++ text, ⟨offset + byteCount (text.flatMap writeChar) + 1, rest⟩) := by
  induction text generalizing read offset with
  | nil => simp [readText, byteCount]
  | cons char text ih =>
      rw [List.flatMap_cons, List.append_assoc, (written_writeChar char).readText, ih]
      simp [byteCount_append, Nat.add_assoc]

theorem Scan.text_of_written (text : String) (offset : Nat) (rest : List Char) :
    Scan.text ⟨offset, text.toList.flatMap writeChar ++ '"' :: rest⟩ =
      .ok (text, ⟨offset + byteCount (text.toList.flatMap writeChar) + 1, rest⟩) := by
  have read := readText_flatMap text.toList [] offset rest
  rw [Scan.text, read]
  simp [pure, Except.pure, bind, Except.bind]

/-- A value that begins with a quote is a text. -/
theorem Scan.value_of_quote (steps depth offset : Nat) (chars : List Char) :
    Scan.value (steps + 1) depth ⟨offset, '"' :: chars⟩ =
      (Scan.text ⟨offset + 1, chars⟩).map fun (text, cursor) => (.string text, cursor) := by
  simp only [Scan.value]
  rfl

/-- What is written for a text is read as the value that the text is. -/
theorem parse_writeText (text : String) : parse (writeText text) = .ok (.string text) := by
  have chars : (writeText text).toList = '"' :: (text.toList.flatMap writeChar ++ ['"']) := by
    simp [writeText]
  have value := Scan.value_of_quote (2 * (writeText text).length + 1) depthLimit 0
    (text.toList.flatMap writeChar ++ ['"'])
  rw [Scan.text_of_written] at value
  rw [parse, Scan.whole, Cursor.start, chars]
  simp only [bind, StateT.bind, value]
  rfl

end Json

namespace Codec

theorem fromText_of_parse {α : Type} (codec : Codec α) {text : String} {json : Json}
    (parsed : Json.parse text = .ok json) : codec.fromText text = codec.decode json := by
  rw [fromText, parsed]
  rfl

/-- Every string comes back from its JSON text, whatever characters it has. So different strings
have different texts, and none of these texts is that of a number or of a truth value. -/
theorem strings_come_back :
    (∀ text, string.fromText (string.toText text) = .success text) ∧
    (∀ text other, text ≠ other → string.toText text ≠ string.toText other) ∧
    ∀ text, number.fromText (string.toText text) = .failure "not a number" ∧
      boolean.fromText (string.toText text) = .failure "not a boolean" := by
  have parsed : ∀ text, Json.parse (string.toText text) = .ok (.string text) := fun text =>
    Json.parse_writeText text
  refine ⟨fun text => string.fromText_of_parse (parsed text), ?_, fun text => ⟨?_, ?_⟩⟩
  · intro text other different same
    have values := (parsed text).symm.trans ((congrArg Json.parse same).trans (parsed other))
    cases values
    exact different rfl
  · exact number.fromText_of_parse (parsed text)
  · exact boolean.fromText_of_parse (parsed text)

/-- A quote, a backslash, a control character and a character beyond the basic plane. -/
theorem escaped_strings_come_back :
    string.toText "\"" ≠ string.toText "\\" ∧
      string.fromText (string.toText "\"\\\n𝄞") = .success "\"\\\n𝄞" :=
  ⟨strings_come_back.2.1 _ _ (by decide), strings_come_back.1 _⟩

end Codec

end Deferral

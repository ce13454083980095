import Deferral.Json.Scan

/-!
# Texts between quotes

Inside quotes a backslash begins an escape. An escape by code stands for a UTF-16 unit of four
hexadecimal digits, and a character beyond the first plane takes two of them. `readText` goes
through the characters one by one and keeps in its `Mode` what it is in the middle of. `writeText`
escapes what has to be escaped and nothing else.
-/

namespace Deferral.Json

/-- The character that a one-letter escape stands for. -/
def shortEscape? (letter : Char) : Option Char :=
  if letter = '"' then some '"'
  else if letter = '\\' then some '\\'
  else if letter = '/' then some '/'
  else if letter = 'b' then some '\x08'
  else if letter = 'f' then some '\x0c'
  else if letter = 'n' then some '\n'
  else if letter = 'r' then some '\r'
  else if letter = 't' then some '\t'
  else none

/-- The value of a hexadecimal digit in either case. -/
def hexDigit? (char : Char) : Option Nat :=
  if '0' ≤ char ∧ char ≤ '9' then some (char.toNat - '0'.toNat)
  else if 'a' ≤ char ∧ char ≤ 'f' then some (char.toNat - 'a'.toNat + 10)
  else if 'A' ≤ char ∧ char ≤ 'F' then some (char.toNat - 'A'.toNat + 10)
  else none

/-- The unit is the first of a pair. -/
def isHighSurrogate (unit : Nat) : Bool := 0xD800 ≤ unit && unit ≤ 0xDBFF

/-- The unit is the second of a pair. -/
def isLowSurrogate (unit : Nat) : Bool := 0xDC00 ≤ unit && unit ≤ 0xDFFF

/-- The character of a pair of units. -/
def ofSurrogates (high low : Nat) : Char :=
  Char.ofNat (0x10000 + (high - 0xD800) * 0x400 + (low - 0xDC00))

/-- What reading is in the middle of. -/
inductive Mode where
  | plain
  | escape
  /-- Behind some digits of an escape by code, which may complete a pair. -/
  | code (high : Option Nat) (digits value : Nat)
  /-- Behind the first escape of a pair. -/
  | secondBackslash (high : Nat)
  /-- Behind the backslash of the second escape of a pair. -/
  | secondLetter (high : Nat)
  deriving Repr, DecidableEq

/-- The number of bytes that characters take in UTF-8. -/
def byteCount : List Char → Nat
  | [] => 0
  | char :: rest => char.utf8Size + byteCount rest

/-- An escape by code needs four more bytes, of which some have been read; where there are fewer the
text ends in the middle of it, and where they are not all digits the escape is invalid. -/
def codeError (offset digits : Nat) (rest : List Char) : SyntaxError :=
  let missing := 4 - digits
  if byteCount (rest.take missing) < missing then
    ⟨.endInString, offset + byteCount (rest.take missing)⟩
  else ⟨.invalidEscape, offset + missing⟩

/-- Read up to the closing quote, behind some characters, the last one first. -/
def readText : Mode → List Char → (offset : Nat) → List Char →
    Except SyntaxError (List Char × Cursor)
  | _, _, offset, [] => .error ⟨.endInString, offset⟩
  | .plain, read, offset, char :: rest =>
    if char = '"' then .ok (read.reverse, ⟨offset + 1, rest⟩)
    else if char = '\\' then readText .escape read (offset + 1) rest
    else if char.toNat < 0x20 then .error ⟨.controlCharacter, offset + 1⟩
    else readText .plain (char :: read) (offset + char.utf8Size) rest
  | .escape, read, offset, char :: rest =>
    if char = 'u' then readText (.code none 0 0) read (offset + 1) rest
    else
      match shortEscape? char with
      | some meant => readText .plain (meant :: read) (offset + 1) rest
      | none => .error ⟨.invalidEscape, offset + 1⟩
  | .code high digits value, read, offset, char :: rest =>
    match hexDigit? char with
    | none => .error (codeError offset digits (char :: rest))
    | some digit =>
      let value := 16 * value + digit
      if digits < 3 then readText (.code high (digits + 1) value) read (offset + 1) rest
      else
        match high with
        | some high =>
          if isLowSurrogate value then
            readText .plain (ofSurrogates high value :: read) (offset + 1) rest
          else .error ⟨.loneSurrogate, offset + 1⟩
        | none =>
          if isLowSurrogate value then .error ⟨.loneSurrogate, offset + 1⟩
          else if isHighSurrogate value then
            readText (.secondBackslash value) read (offset + 1) rest
          else readText .plain (Char.ofNat value :: read) (offset + 1) rest
  | .secondBackslash high, read, offset, char :: rest =>
    if char = '\\' then readText (.secondLetter high) read (offset + 1) rest
    else .error ⟨.secondEscapeExpected, offset + 1⟩
  | .secondLetter high, read, offset, char :: rest =>
    if char = 'u' then readText (.code (some high) 0 0) read (offset + 1) rest
    else .error ⟨.secondEscapeExpected, offset + 1⟩

/-- Read a text whose opening quote has been read. -/
def Scan.text : Scan String := fun cursor => do
  let (read, cursor) ← readText .plain [] cursor.offset cursor.rest
  return (String.ofList read, cursor)

/-- Read past the closing quote without regard to what the text is. Escapes must be well formed, but
a unit need not belong to a character. -/
def skipText : Mode → (offset : Nat) → List Char → Except SyntaxError Cursor
  | _, offset, [] => .error ⟨.endInString, offset⟩
  | .plain, offset, char :: rest =>
    if char = '"' then .ok ⟨offset + 1, rest⟩
    else if char = '\\' then skipText .escape (offset + 1) rest
    else if char.toNat < 0x20 then .error ⟨.controlCharacter, offset⟩
    else skipText .plain (offset + char.utf8Size) rest
  | .code _ digits _, offset, char :: rest =>
    match hexDigit? char with
    | none => .error (codeError offset digits (char :: rest))
    | some _ => skipText (if digits < 3 then .code none (digits + 1) 0 else .plain)
        (offset + 1) rest
  | _, offset, char :: rest =>
    if char = 'u' then skipText (.code none 0 0) (offset + 1) rest
    else if (shortEscape? char).isSome then skipText .plain (offset + 1) rest
    else .error ⟨.invalidEscape, offset + 1⟩

/-- The hexadecimal digit with a value, in lower case. -/
def hexDigit (value : Nat) : Char :=
  Char.ofNat (if value < 10 then '0'.toNat + value else 'a'.toNat + (value - 10))

/-- A character as it stands in a JSON text, escaped if it has to be. -/
def writeChar (char : Char) : List Char :=
  if char = '"' then ['\\', '"']
  else if char = '\\' then ['\\', '\\']
  else if char = '\x08' then ['\\', 'b']
  else if char = '\t' then ['\\', 't']
  else if char = '\n' then ['\\', 'n']
  else if char = '\x0c' then ['\\', 'f']
  else if char = '\r' then ['\\', 'r']
  else if char.toNat < 0x20 then
    ['\\', 'u', '0', '0', hexDigit (char.toNat / 16), hexDigit (char.toNat % 16)]
  else [char]

/-- A text in quotes, with its characters escaped where they have to be. -/
def writeText (text : String) : String :=
  String.ofList ('"' :: text.toList.flatMap writeChar ++ ['"'])

end Deferral.Json

/-!
# Scanning

Reading goes through a text from left to right. What is left of the text is a list of characters;
the number of bytes read so far goes along with it, because errors are located by bytes.

An error is located either behind the last byte that was read or, where the next byte is what is
wrong, behind that byte.
-/

namespace Deferral.Json

/-- What can be wrong with a text. -/
inductive Flaw where
  | endInValue
  | endInList
  | endInObject
  | endInString
  | colonExpected
  | listCommaExpected
  | objectCommaExpected
  | keywordExpected
  | valueExpected
  | invalidEscape
  | invalidNumber
  | numberOutOfRange
  | loneSurrogate
  | secondEscapeExpected
  | controlCharacter
  | keyExpected
  | trailingComma
  | trailingCharacters
  | tooDeep
  deriving Repr, DecidableEq

/-- The words for a flaw. -/
def Flaw.message : Flaw → String
  | .endInValue => "EOF while parsing a value"
  | .endInList => "EOF while parsing a list"
  | .endInObject => "EOF while parsing an object"
  | .endInString => "EOF while parsing a string"
  | .colonExpected => "expected \x60:\x60"
  | .listCommaExpected => "expected \x60,\x60 or \x60]\x60"
  | .objectCommaExpected => "expected \x60,\x60 or \x60\x7d\x60"
  | .keywordExpected => "expected ident"
  | .valueExpected => "expected value"
  | .invalidEscape => "invalid escape"
  | .invalidNumber => "invalid number"
  | .numberOutOfRange => "number out of range"
  | .loneSurrogate => "lone leading surrogate in hex escape"
  | .secondEscapeExpected => "unexpected end of hex escape"
  | .controlCharacter => "control character (\\u0000-\\u001F) found while parsing a string"
  | .keyExpected => "key must be a string"
  | .trailingComma => "trailing comma"
  | .trailingCharacters => "trailing characters"
  | .tooDeep => "recursion limit exceeded"

/-- A flaw and the number of bytes up to where it shows. -/
structure SyntaxError where
  flaw : Flaw
  position : Nat
  deriving Repr, DecidableEq

/-- The line, from one, and the column at which a number of bytes of a text ends. A line feed begins
the next line, and columns count the bytes behind it. -/
def lineAndColumn : (text : List Char) → (bytes line column : Nat) → Nat × Nat
  | [], _, line, column => (line, column)
  | char :: rest, bytes, line, column =>
    if bytes < char.utf8Size then (line, column + bytes)
    else if char = '\n' then lineAndColumn rest (bytes - 1) (line + 1) 0
    else lineAndColumn rest (bytes - char.utf8Size) line (column + char.utf8Size)

/-- The words for a syntax error in a text, with its line and column. -/
def SyntaxError.message (text : String) (error : SyntaxError) : String :=
  let (line, column) := lineAndColumn text.toList error.position 1 0
  s!"{error.flaw.message} at line {line} column {column}"

/-- What of a text is still to be read, and how many bytes were read. -/
structure Cursor where
  offset : Nat
  rest : List Char
  deriving Repr, DecidableEq

/-- The cursor in front of a text. -/
def Cursor.start (text : String) : Cursor := ⟨0, text.toList⟩

/-- A reader of text, which moves a cursor or stops at a syntax error. -/
abbrev Scan (α : Type) := StateT Cursor (Except SyntaxError) α

namespace Scan

variable {α : Type}

/-- Stop with a flaw at the place of the cursor. -/
def failHere (flaw : Flaw) : Scan α := fun cursor =>
  .error ⟨flaw, cursor.offset⟩

/-- Fail behind the next byte, or at the end of the text if there is none. -/
def failNext (flaw : Flaw) : Scan α := fun cursor =>
  .error ⟨flaw, if cursor.rest.isEmpty then cursor.offset else cursor.offset + 1⟩

/-- The next character, which is not read yet. -/
def peek : Scan (Option Char) := fun cursor =>
  .ok (cursor.rest.head?, cursor)

/-- Read one character, if there is one. -/
def advance : Scan Unit := fun cursor =>
  match cursor.rest with
  | [] => .ok ((), cursor)
  | char :: rest => .ok ((), ⟨cursor.offset + char.utf8Size, rest⟩)

/-- The characters that may stand between the parts of a text. -/
def isBlank (char : Char) : Bool :=
  char = ' ' || char = '\t' || char = '\n' || char = '\r'

/-- The cursor behind the blanks at a place. -/
def afterBlanks (offset : Nat) : List Char → Cursor
  | [] => ⟨offset, []⟩
  | char :: rest => if isBlank char then afterBlanks (offset + 1) rest else ⟨offset, char :: rest⟩

/-- Read blanks; the next character, if there is one, is left unread. -/
def skipBlanks : Scan (Option Char) := fun cursor =>
  let cursor := afterBlanks cursor.offset cursor.rest
  .ok (cursor.rest.head?, cursor)

/-- Read the given letters, the rest of a keyword. -/
def letters : List Char → Scan Unit
  | [] => return ()
  | letter :: more => do
    match ← peek with
    | none => failHere .endInValue
    | some char =>
      if char = letter then do
        advance
        letters more
      else failNext .keywordExpected

/-- Read digits as far as there are any. -/
def digits : Scan (List Nat) := fun cursor =>
  let (digits, rest) := cursor.rest.span Char.isDigit
  .ok (digits.map fun digit => digit.toNat - '0'.toNat, ⟨cursor.offset + digits.length, rest⟩)

end Scan

end Deferral.Json

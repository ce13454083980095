import Deferral.Text.Visible

/-!
# Quoted text

A text in quotes, in which every character can be told apart by looking at it. Quotes, backslashes
and the common controls have short escapes; any other character that is not shown as itself is
written by its code point.
-/

namespace Deferral.Text

/-- A code point in lower-case hexadecimal, between braces. -/
def codePoint (char : Char) : List Char :=
  ['\\', 'u', '{'] ++ Nat.toDigits 16 char.toNat ++ ['}']

/-- A character as it stands in a quoted text. -/
def quoteChar (char : Char) : List Char :=
  if char = '"' then ['\\', '"']
  else if char = '\\' then ['\\', '\\']
  else if char = '\n' then ['\\', 'n']
  else if char = '\r' then ['\\', 'r']
  else if char = '\t' then ['\\', 't']
  else if char = '\x00' then ['\\', '0']
  else if isShown char then [char]
  else codePoint char

/-- A text in quotes, with everything escaped that cannot be seen. -/
def quoted (text : String) : String :=
  String.ofList ('"' :: text.toList.flatMap quoteChar ++ ['"'])

example : quoted "a\"b\\" = "\"a\\\"b\\\\\"" := by decide +kernel
example : quoted "\x1b" = "\"\\u\x7b1b\x7d\"" := by decide +kernel

end Deferral.Text

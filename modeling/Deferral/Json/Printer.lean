import Deferral.Json.Numeral
import Deferral.Json.Text

/-!
# Writing JSON

Values are written without blanks, the members of an object in the order of their keys.
-/

namespace Deferral.Json

mutual

/-- The shortest text of a value, without any blanks. -/
def write : Json → String
  | .null => "null"
  | .bool flag => if flag then "true" else "false"
  | .number value => writeNumber value
  | .string text => writeText text
  | .array items => "[" ++ ",".intercalate (writeItems items) ++ "]"
  | .object members => "\x7b" ++ ",".intercalate (writeMembers members) ++ "\x7d"

/-- The texts of the items of a list. -/
def writeItems : List Json → List String
  | [] => []
  | item :: items => write item :: writeItems items

/-- The texts of the members of an object, each with its key. -/
def writeMembers : List (String × Json) → List String
  | [] => []
  | (key, value) :: members => (writeText key ++ ":" ++ write value) :: writeMembers members

end

end Deferral.Json

import Deferral.Json.Parser
import Deferral.Json.Printer
import Deferral.Outcome.Basic

/-!
# Codecs

A codec reads typed data out of a JSON value, with a message where the value is not of the right
form, and writes typed data as a JSON value.
-/

namespace Deferral

/-- A way to read and write data of a type. -/
structure Codec (α : Type) where
  decode : Json → Outcome String α
  encode : α → Json

/-- A type whose name stands in the messages of its codecs. -/
class TypeName (α : Type) where
  typeName : String

namespace Codec

variable {α : Type}

/-- What is said of a text that is not JSON, with the place of the error. -/
def invalidText (text : String) (error : Json.SyntaxError) : String :=
  "invalid JSON: " ++ error.message text

/-- Read a text as JSON and decode it. -/
def fromText (codec : Codec α) (text : String) : Outcome String α :=
  ((Outcome.ofExcept (Json.parse text)).mapFailure (invalidText text)).flatMap codec.decode

/-- Encode a value and write it as JSON. -/
def toText (codec : Codec α) (value : α) : String :=
  (codec.encode value).write

/-- The printed form of a codec, which shows the type of its data only. -/
def shown [TypeName α] (_codec : Codec α) : String :=
  (Text.Shown.record "Codec" [("decoded", .text (TypeName.typeName α))] false).line

end Codec

end Deferral

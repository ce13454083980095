import Deferral.Codec.Basic
import Deferral.Date.Timestamp

/-!
# Codecs of texts, numbers, truth values and dates

Each of these reads one kind of JSON value and refuses all others. A number is read as the nearest
double; a double that is not finite has no JSON form and is written as null. A date is a text.
-/

namespace Deferral

instance : TypeName String := ⟨"alloc::string::String"⟩
instance : TypeName Double := ⟨"f64"⟩
instance : TypeName Bool := ⟨"bool"⟩
instance : TypeName Int64 := ⟨"i64"⟩
instance : TypeName Instant := ⟨"chrono::datetime::DateTime<chrono::offset::utc::Utc>"⟩

namespace Codec

/-- Texts, as they are. -/
def string : Codec String where
  decode
    | .string text => .success text
    | _ => .failure "not a string"
  encode := .string

/-- Doubles. One that is not finite has no numeral, so it is encoded as `null`. -/
def number : Codec Double where
  decode
    | .number value => .success value.toDouble
    | _ => .failure "not a number"
  encode double := ((JsonNumber.ofDouble? double).map Json.number).getD .null

/-- Truth values. -/
def boolean : Codec Bool where
  decode
    | .bool flag => .success flag
    | _ => .failure "not a boolean"
  encode := .bool

/-- Moments, written as timestamps. -/
def date : Codec Instant where
  decode
    | .string text => ((Timestamp.parse? text).map .success).getD (.failure "not an iso date")
    | _ => .failure "not an iso date"
  encode instant := .string (Timestamp.write instant)

end Codec

end Deferral

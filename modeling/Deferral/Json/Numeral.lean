import Deferral.Json.Scan
import Deferral.Json.Value
import Deferral.Number.Scaling
import Deferral.Number.Shortest

/-!
# Numerals

A numeral without point and exponent is exact if it fits into 64 bits. Any other is read as a
significand, made of its first digits without regard to the point, and a power of ten. A digit that
would take the significand beyond 64 bits is dropped, with all digits behind it on its side of the
point.

Doubles are written with the fewest digits that read back: positionally where the first digit stands
between the fifth place behind the point and the sixteenth before it, and with an exponent
elsewhere.
-/

namespace Deferral.Json

/-- Values below this fit into a significand. -/
def significandLimit : Nat := Nat.pow 2 64

/-- Exponents below this are taken as they are. -/
def exponentLimit : Nat := Nat.pow 2 31

/-- Append digits to a number as long as it stays below a limit, and count the digits appended. -/
def absorb (limit : Nat) : Nat → List Nat → Nat × Nat
  | sofar, [] => (sofar, 0)
  | sofar, digit :: digits =>
    if sofar * 10 + digit < limit then
      let (result, used) := absorb limit (sofar * 10 + digit) digits
      (result, used + 1)
    else (sofar, 0)

/-- The double of the given sign. -/
def signed (negative : Bool) (double : Double) : Double :=
  if negative then double.negate else double

/-- The double of a significand and a power of ten, once the numeral has been read. -/
def scaled (negative : Bool) (significand : Nat) (exponent : Int) : Scan Double := do
  match Double.ofDecimal? significand exponent with
  | some double => return signed negative double
  | none => Scan.failHere .numberOutOfRange

namespace Scan

/-- Read the sign of an exponent, if there is one; it is negative if so told. -/
def exponentSign : Scan Bool := do
  match ← peek with
  | some '+' => advance; return false
  | some '-' => advance; return true
  | _ => return false

/-- Read the digits of an exponent. One that is too large makes the number zero or too large, and
the latter is noticed at the digit that makes it so. -/
def exponentDigits (negative : Bool) (significand : Nat) (exponent : Int) (down : Bool) :
    Scan Double := fun cursor => do
  let (digits, behind) ← Scan.digits cursor
  let (shift, used) := absorb exponentLimit 0 digits
  if used = digits.length then
    scaled negative significand (if down then exponent - shift else exponent + shift) behind
  else if significand = 0 ∨ down then
    return (signed negative (.ofNat 0), behind)
  else
    .error ⟨.numberOutOfRange, cursor.offset + used + 1⟩

/-- Read the exponent of a numeral, if there is one, and make the double. -/
def exponentPart (negative : Bool) (significand : Nat) (exponent : Int) : Scan Double := do
  match ← peek with
  | some 'e' | some 'E' =>
    advance
    let down ← exponentSign
    match ← peek with
    | none => failHere .endInValue
    | some char =>
      if char.isDigit then exponentDigits negative significand exponent down
      else failNext .invalidNumber
  | _ => scaled negative significand exponent

/-- Read the digits behind the decimal point, of which there must be one, and go on with the
exponent. -/
def fractionPart (negative : Bool) (significand : Nat) (exponent : Int) : Scan Double := do
  let digits ← digits
  if digits.isEmpty then
    match ← peek with
    | none => failHere .endInValue
    | some _ => failNext .invalidNumber
  else
    let (significand, used) := absorb significandLimit significand digits
    exponentPart negative significand (exponent - used)

/-- An integer that fits into a significand. Below zero there is room for one bit less, and zero has
no negative; what does not fit is a double. -/
def wholeNumber (negative : Bool) (significand : Nat) : JsonNumber :=
  if ¬negative then .natural (.ofNat significand)
  else if significand = 0 ∨ Double.signWeight < significand then
    .double (Double.ofNat significand).negate
  else .negative (.ofInt (-significand))

/-- Fail behind the digit that follows a leading zero, when so many digits have been read. -/
def failLeadingZero {α : Type} (count : Nat) : Scan α := fun cursor =>
  .error ⟨.invalidNumber, cursor.offset - count + 2⟩

/-- Read the digits of a numeral and what follows them. -/
def unsignedNumeral (negative : Bool) : Scan JsonNumber := do
  let read ← digits
  if read.head? = some 0 ∧ 1 < read.length then
    failLeadingZero read.length
  else
    let (significand, used) := absorb significandLimit 0 read
    let dropped := read.length - used
    match ← peek with
    | some '.' =>
      advance
      return .double (← fractionPart negative significand dropped)
    | some 'e' | some 'E' => return .double (← exponentPart negative significand dropped)
    | _ =>
      if dropped = 0 then return wholeNumber negative significand
      else return .double (← scaled negative significand dropped)

/-- Read a numeral, which begins with a digit or a minus sign. -/
def numeral : Scan JsonNumber := do
  match ← peek with
  | some '-' =>
    advance
    match ← peek with
    | none => failHere .endInValue
    | some char => if char.isDigit then unsignedNumeral true else failNext .invalidNumber
  | _ => unsignedNumeral false

/-- Pass over digits, of which there must be one. -/
def skipDigits : Scan Unit := do
  match ← peek with
  | some char => if char.isDigit then discard digits else failNext .invalidNumber
  | none => failHere .invalidNumber

/-- Pass over the exponent of a numeral, if there is one. -/
def skipExponent : Scan Unit := do
  match ← peek with
  | some 'e' | some 'E' =>
    advance
    let _ ← exponentSign
    skipDigits
  | _ => return ()

/-- Read past a numeral that is well formed, however large it is. -/
def skipNumeral : Scan Unit := do
  if (← peek) = some '-' then advance
  if (← peek) = some '0' then
    advance
    if (← peek).any Char.isDigit then failNext .invalidNumber
  else skipDigits
  if (← peek) = some '.' then do
    advance
    skipDigits
  skipExponent

end Scan

/-- Where positional notation is used, by the place of the first digit. -/
structure NumeralStyle where
  /-- The first place behind the point that is still written positionally. -/
  leastPlace : Int
  /-- The last place before the point that is still written positionally. -/
  greatestPlace : Int

/-- JSON numbers between 0.00001 and 10 ^ 16 are written positionally. -/
def numeralStyle : NumeralStyle where
  leastPlace := -5
  greatestPlace := 15

/-- So many zeros. -/
def zeros (count : Nat) : List Char := List.replicate count '0'

/-- Digits with a point among them, in front of them or behind them, and a digit on either side of
it. The first digit stands at the given place. -/
def positional (digits : List Char) (place : Int) : List Char :=
  match place with
  | .negSucc gap => '0' :: '.' :: zeros gap ++ digits
  | .ofNat place =>
    if digits.length ≤ place + 1 then digits ++ zeros (place + 1 - digits.length) ++ ['.', '0']
    else digits.take (place + 1) ++ '.' :: digits.drop (place + 1)

/-- Digits with a point behind the first, and the place of the first as an exponent. -/
def scientific (digits : List Char) (place : Int) : List Char :=
  let mantissa :=
    match digits with
    | first :: second :: more => first :: '.' :: second :: more
    | short => short
  let sign := if place < 0 then '-' else '+'
  mantissa ++ 'e' :: sign :: (toString place.natAbs).toList

/-- The shortest numeral of a double in a style: positional if the place of its first digit is in
the range of the style, and with an exponent otherwise. -/
def NumeralStyle.write (style : NumeralStyle) (double : Double) : String :=
  let sign := if double.isNegative then ['-'] else []
  if double.isZero then String.ofList (sign ++ ['0', '.', '0'])
  else
    let decimal := double.shortest
    let digits := (toString decimal.digits).toList
    let place := digits.length - 1 + decimal.exponent
    let body :=
      if style.leastPlace ≤ place ∧ place ≤ style.greatestPlace then positional digits place
      else scientific digits place
    String.ofList (sign ++ body)

/-- The numeral of a double in JSON. -/
def writeDouble (double : Double) : String := numeralStyle.write double

/-- The text of a number. -/
def writeNumber : JsonNumber → String
  | .natural value => toString value.toNat
  | .negative value => toString value.toInt
  | .double value => writeDouble value

end Deferral.Json

import CssSyntax.Json.Value

/-! Reading JSON text. A reader takes characters off the front and yields what it read with the
characters that are left, or none if the text is not JSON. -/

namespace CssSyntax.Json.Reader

def isBlank (character : Char) : Bool :=
  character == ' ' || character == '\t' || character == '\n' || character == '\r'

def skipBlank (text : List Char) : List Char := text.dropWhile isBlank

def isDigit (character : Char) : Bool := '0' ≤ character && character ≤ '9'

def digitValue (character : Char) : Nat := character.toNat - '0'.toNat

def hexValue? (character : Char) : Option Nat :=
  if isDigit character then some (digitValue character)
  else if 'a' ≤ character ∧ character ≤ 'f' then some (character.toNat - 'a'.toNat + 10)
  else if 'A' ≤ character ∧ character ≤ 'F' then some (character.toNat - 'A'.toNat + 10)
  else none

/-- Four hex digits. -/
def hexUnit : List Char → Option (Nat × List Char)
  | first :: second :: third :: fourth :: rest => do
    let digits ← [first, second, third, fourth].mapM hexValue?
    some (digits.foldl (fun value digit => value * 16 + digit) 0, rest)
  | _ => none

def isHighSurrogate (unit : Nat) : Bool := 0xd800 ≤ unit && unit < 0xdc00

def isLowSurrogate (unit : Nat) : Bool := 0xdc00 ≤ unit && unit < 0xe000

/-- The low surrogate that a high one needs after it. -/
def lowSurrogate : List Char → Option (Nat × List Char)
  | '\\' :: 'u' :: rest => (hexUnit rest).filter fun found => isLowSurrogate found.1
  | _ => none

/-- A character as one unit of UTF-16 or as a pair of surrogates. A lone surrogate is none. -/
def unicodeEscape (text : List Char) : Option (Char × List Char) := do
  let (unit, rest) ← hexUnit text
  if isHighSurrogate unit then
    let (low, after) ← lowSurrogate rest
    some (Char.ofNat (0x10000 + (unit - 0xd800) * 0x400 + (low - 0xdc00)), after)
  else if isLowSurrogate unit then none
  else some (Char.ofNat unit, rest)

def shortEscape? : Char → Option Char
  | '"' => some '"'
  | '\\' => some '\\'
  | '/' => some '/'
  | 'b' => some (Char.ofNat 8)
  | 'f' => some (Char.ofNat 12)
  | 'n' => some '\n'
  | 'r' => some '\r'
  | 't' => some '\t'
  | _ => none

/-- One character of a string. Control characters have to be escaped. -/
def character : List Char → Option (Char × List Char)
  | [] => none
  | ['\\'] => none
  | '\\' :: 'u' :: rest => unicodeEscape rest
  | '\\' :: letter :: rest => (shortEscape? letter).map fun found => (found, rest)
  | plain :: rest => if plain.toNat < 0x20 then none else some (plain, rest)

/-- The characters of a string after its opening quote. -/
def content (text : List Char) : Option (List Char × List Char) :=
  if text.head? = some '"' then some ([], text.tail)
  else
    match character text with
    | none => none
    | some (first, rest) =>
      if rest.length < text.length then
        (content rest).map fun found => (first :: found.1, found.2)
      else none
termination_by text.length

def stringText : List Char → Option (String × List Char)
  | '"' :: rest => (content rest).map fun found => (String.ofList found.1, found.2)
  | _ => none

/-- A significand of at most 64 bits and a power of ten, grown digit by digit. -/
structure Significand where
  value : Nat
  exponent : Int
  isFull : Bool

namespace Significand

def fits (value : Nat) : Bool := value < Nat.pow 2 64

/-- From the first digit that does not fit on, whole digits only count as powers of ten. -/
def pushWhole (significand : Significand) (digit : Nat) : Significand :=
  let value := significand.value * 10 + digit
  if !significand.isFull && fits value then { significand with value }
  else { significand with exponent := significand.exponent + 1, isFull := true }

/-- From the first digit that does not fit on, digits after the point are dropped. -/
def pushFraction (significand : Significand) (digit : Nat) : Significand :=
  let value := significand.value * 10 + digit
  if significand.isFull then significand
  else if fits value then { significand with value, exponent := significand.exponent - 1 }
  else { significand with isFull := true }

def ofWhole (digits : List Char) : Significand :=
  digits.foldl (fun significand digit => significand.pushWhole (digitValue digit)) ⟨0, 0, false⟩

def withFraction (significand : Significand) (digits : List Char) : Significand :=
  digits.foldl (fun grown digit => grown.pushFraction (digitValue digit))
    { significand with isFull := false }

end Significand

def digits (text : List Char) : List Char × List Char :=
  (text.takeWhile isDigit, text.dropWhile isDigit)

/-- The digits before the point: a single zero, or digits that start with another. -/
def wholeDigits (text : List Char) : Option (List Char × List Char) :=
  match digits text with
  | ([], _) => none
  | ('0' :: _ :: _, _) => none
  | found => some found

/-- The digits after a point, at least one, or none without a point. -/
def fractionDigits : List Char → Option (Option (List Char) × List Char)
  | '.' :: rest =>
    match digits rest with
    | ([], _) => none
    | (found, after) => some (some found, after)
  | text => some (none, text)

def signedDigits : List Char → Option ((Bool × List Char) × List Char)
  | '-' :: rest => some ((true, (digits rest).1), (digits rest).2)
  | '+' :: rest => some ((false, (digits rest).1), (digits rest).2)
  | rest => some ((false, (digits rest).1), (digits rest).2)

def natOfDigits (digits : List Char) : Nat :=
  digits.foldl (fun value digit => value * 10 + digitValue digit) 0

/-- The power of ten after an `e`, at least one digit, or none without an `e`. -/
def exponentPart : List Char → Option (Option Int × List Char)
  | first :: rest =>
    if first = 'e' ∨ first = 'E' then
      match signedDigits rest with
      | some ((_, []), _) => none
      | some ((true, found), after) => some (some (-(natOfDigits found : Int)), after)
      | some ((false, found), after) => some (some (natOfDigits found), after)
      | none => none
    else some (none, first :: rest)
  | [] => some (none, [])

/-- A number written without point and exponent is whole if it fits. -/
def wholeNumber? (isNegative : Bool) (significand : Significand) : Option JsonNumber :=
  if significand.isFull then none
  else if !isNegative then some (.natural significand.value)
  else if 0 < significand.value ∧ significand.value ≤ Nat.pow 2 63 then
    some (.negative significand.value)
  else none

def realNumber? (isNegative : Bool) (significand : Significand) (power : Int) :
    Option JsonNumber :=
  (Binary64.ofDecimal? significand.value (significand.exponent + power)).map (.real isNegative)

def numberOfParts? (isNegative : Bool) (whole : List Char) (fraction : Option (List Char))
    (power : Option Int) : Option JsonNumber :=
  let significand := Significand.ofWhole whole
  match fraction, power with
  | none, none =>
    (wholeNumber? isNegative significand).or (realNumber? isNegative significand 0)
  | none, some power => realNumber? isNegative significand power
  | some found, power =>
    realNumber? isNegative (significand.withFraction found) (power.getD 0)

def unsignedNumber (isNegative : Bool) (text : List Char) : Option (JsonNumber × List Char) := do
  let (whole, afterWhole) ← wholeDigits text
  let (fraction, afterFraction) ← fractionDigits afterWhole
  let (power, rest) ← exponentPart afterFraction
  let number ← numberOfParts? isNegative whole fraction power
  some (number, rest)

def numberText : List Char → Option (JsonNumber × List Char)
  | '-' :: rest => unsignedNumber true rest
  | text => unsignedNumber false text

/-- Drops a word that the text has to start with. -/
def word {α : Type} (expected : String) (value : α) (text : List Char) :
    Option (α × List Char) :=
  if expected.toList.isPrefixOf text then some (value, text.drop expected.length) else none

/-- Items with commas between them up to the closing bracket, at least one. -/
def sequence {α : Type} (close : Char) (item : List Char → Option (α × List Char))
    (text : List Char) : Option (List α × List Char) :=
  match item text with
  | none => none
  | some (first, rest) =>
    match skipBlank rest with
    | [] => none
    | mark :: after =>
      if mark = close then some ([first], after)
      else if mark = ',' ∧ after.length < text.length then
        (sequence close item after).map fun found => (first :: found.1, found.2)
      else none
termination_by text.length

/-- What stands between two brackets, after the opening one. -/
def bracketed {α : Type} (close : Char) (item : List Char → Option (α × List Char))
    (text : List Char) : Option (List α × List Char) :=
  match skipBlank text with
  | [] => none
  | mark :: after => if mark = close then some ([], after) else sequence close item text

def colon (text : List Char) : Option (Unit × List Char) :=
  match skipBlank text with
  | ':' :: rest => some ((), rest)
  | _ => none

def member (value : List Char → Option (Json × List Char)) (text : List Char) :
    Option ((String × Json) × List Char) := do
  let (name, afterName) ← stringText (skipBlank text)
  let ((), afterColon) ← colon afterName
  let (found, rest) ← value afterColon
  some ((name, found), rest)

def scalar (text : List Char) : Option (Json × List Char) :=
  match text with
  | 'n' :: _ => word "null" .null text
  | 't' :: _ => word "true" (.bool true) text
  | 'f' :: _ => word "false" (.bool false) text
  | '"' :: _ => (stringText text).map fun found => (.string found.1, found.2)
  | _ => (numberText text).map fun found => (.number found.1, found.2)

def valueWith (inner : List Char → Option (Json × List Char)) (text : List Char) :
    Option (Json × List Char) :=
  match skipBlank text with
  | '[' :: rest => (bracketed ']' inner rest).map fun found => (.array found.1, found.2)
  | '{' :: rest =>
    (bracketed '}' (member inner) rest).map fun found => (.object found.1, found.2)
  | rest => scalar rest

/-- A value in which arrays and objects nest at most `room` deep. -/
def value : Nat → List Char → Option (Json × List Char)
  | 0, text => scalar (skipBlank text)
  | room + 1, text => valueWith (value room) text

def nestingLimit : Nat := 127

end CssSyntax.Json.Reader

namespace CssSyntax.Json

/-- The document of a text, with nothing but blanks around it. -/
def ofText? (text : String) : Option Json :=
  match Reader.value Reader.nestingLimit text.toList with
  | some (document, rest) => if (Reader.skipBlank rest).isEmpty then some document else none
  | none => none

end CssSyntax.Json

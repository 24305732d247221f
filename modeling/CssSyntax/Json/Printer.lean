import CssSyntax.Decimal.Shortest
import CssSyntax.Json.Value

/-! Printing JSON without blanks. Floating-point numbers have their shortest digits, and always a
point or an exponent. -/

namespace CssSyntax.Json.Printer

/-- Where numbers stop to be written positionally: past so many digits before the point, and from
so many zeros after it. -/
structure Layout where
  digitsBefore : Int
  zerosAfter : Int

def layout : Layout := ⟨16, 5⟩

def zeros (count : Int) : List Char := List.replicate count.toNat '0'

/-- An exponent is written with its sign, a plus too. -/
def exponentText (exponent : Int) : List Char :=
  ['e', if exponent < 0 then '-' else '+'] ++ Nat.toDigits 10 exponent.natAbs

/-- The text of `digits * 10 ^ exponent`. -/
def decimalText (layout : Layout) (digits : List Char) (exponent : Int) : List Char :=
  let point := (digits.length : Int) + exponent
  if 0 ≤ exponent ∧ point ≤ layout.digitsBefore then digits ++ zeros exponent ++ ['.', '0']
  else if 0 < point ∧ point ≤ layout.digitsBefore then
    digits.take point.toNat ++ ['.'] ++ digits.drop point.toNat
  else if -layout.zerosAfter < point ∧ point ≤ 0 then ['0', '.'] ++ zeros (-point) ++ digits
  else
    let fraction := if digits.length = 1 then [] else '.' :: digits.drop 1
    digits.take 1 ++ fraction ++ exponentText (point - 1)

def realText (number : Binary64) : List Char :=
  if number.isZero then ['0', '.', '0']
  else
    let point := Decimal.shortest number
    decimalText layout (Nat.toDigits 10 point.digits) point.exponent

def numberText : JsonNumber → List Char
  | .natural value => Nat.toDigits 10 value
  | .negative magnitude => '-' :: Nat.toDigits 10 magnitude
  | .real isNegative magnitude => (if isNegative then ['-'] else []) ++ realText magnitude

/-- Two hex digits in lower case. -/
def hexPair (code : Nat) : List Char := [Nat.digitChar (code / 16), Nat.digitChar (code % 16)]

def escaped (character : Char) : List Char :=
  if character = '"' then ['\\', '"']
  else if character = '\\' then ['\\', '\\']
  else if character = Char.ofNat 8 then ['\\', 'b']
  else if character = Char.ofNat 12 then ['\\', 'f']
  else if character = '\n' then ['\\', 'n']
  else if character = '\r' then ['\\', 'r']
  else if character = '\t' then ['\\', 't']
  else if character.toNat < 0x20 then ['\\', 'u', '0', '0'] ++ hexPair character.toNat
  else [character]

def stringText (text : String) : List Char := ['"'] ++ text.toList.flatMap escaped ++ ['"']

mutual

def print : Json → List Char
  | .null => "null".toList
  | .bool value => if value then "true".toList else "false".toList
  | .number value => numberText value
  | .string value => stringText value
  | .array items => ['['] ++ printItems items ++ [']']
  | .object members => ['{'] ++ printMembers members ++ ['}']

def printItems : List Json → List Char
  | [] => []
  | [item] => print item
  | item :: rest => print item ++ [','] ++ printItems rest

def printMembers : List (String × Json) → List Char
  | [] => []
  | [(name, value)] => stringText name ++ [':'] ++ print value
  | (name, value) :: rest => stringText name ++ [':'] ++ print value ++ [','] ++ printMembers rest

end

end CssSyntax.Json.Printer

namespace CssSyntax.Json

def text (document : Json) : String := String.ofList (Printer.print document)

end CssSyntax.Json

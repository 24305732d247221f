import CssSyntax.Decimal.Binary64
import CssSyntax.Dictionary

/-! JSON documents. The members of an object stand in the order of the text, repeated names
included. -/

namespace CssSyntax

/-- A whole number of at most 64 bits, or a floating-point number. Minus zero is one. -/
inductive JsonNumber where
  | natural (value : Nat)
  | negative (magnitude : Nat)
  | real (isNegative : Bool) (magnitude : Binary64)
deriving DecidableEq, Repr

inductive Json where
  | null
  | bool (value : Bool)
  | number (value : JsonNumber)
  | string (value : String)
  | array (items : List Json)
  | object (members : List (String × Json))

namespace Json

mutual

/-- Every object with its members in the order of their names. Of two members of one name the
later holds. -/
def canonical : Json → Json
  | null => .null
  | bool value => .bool value
  | number value => .number value
  | string value => .string value
  | array items => .array (canonicalItems items)
  | object members => .object (Dictionary.ofList (canonicalMembers members)).entries

def canonicalItems : List Json → List Json
  | [] => []
  | item :: rest => canonical item :: canonicalItems rest

def canonicalMembers : List (String × Json) → List (String × Json)
  | [] => []
  | (name, value) :: rest => (name, canonical value) :: canonicalMembers rest

end

end Json

end CssSyntax

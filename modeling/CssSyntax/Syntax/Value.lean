import CssSyntax.Outline

/-! Values: what stands after the colon of a declaration and between the parentheses of a
function. Bytes are kept as the source has them, without unescaping or folding of case. -/

namespace CssSyntax

/-- The content of a quoted string and the quote it was written with. -/
structure StringLiteral where
  isSingleQuoted : Bool
  content : Bytes
deriving DecidableEq, Repr

/-- The closing quote is dropped if it is there: a string may end without one. -/
def StringLiteral.ofLiteral (literal : Bytes) : StringLiteral :=
  match literal with
  | [] => ⟨false, []⟩
  | opening :: rest =>
    ⟨opening == Byte.singleQuote, if rest.getLast? = some opening then rest.dropLast else rest⟩

inductive Value where
  /-- A name, a number with its unit, a color or an operator. -/
  | basic (bytes : Bytes)
  | string (literal : StringLiteral)
  /-- A call. A group in parentheses is a call without a name. -/
  | function (name : Bytes) (args : List Value)

def StringLiteral.outline (literal : StringLiteral) : Outline :=
  .leaf ("StringValue \x7b SingleQuote: " ++ (if literal.isSingleQuoted then "true" else "false")
    ++ ", Value: " ++ quoted literal.content ++ " \x7d")

mutual

def Value.outline : Value → Outline
  | .basic bytes => .leaf ("BasicValue \x7b Value: " ++ quoted bytes ++ " \x7d")
  | .string literal => literal.outline
  | .function name args =>
    .record "FunctionValue"
      [.labelled "Name" (.bytes name), .labelled "Args" (.list (Value.outlines args))]

def Value.outlines : List Value → List Outline
  | [] => []
  | value :: rest => Value.outline value :: Value.outlines rest

end

/-- A property with its value, one entry for each group of tokens. -/
structure Declaration where
  key : Bytes
  value : List Value
  important : Bool

def Declaration.outline (declaration : Declaration) : Outline :=
  .record "Declaration"
    [ .labelled "Key" (.bytes declaration.key)
    , .labelled "Value" (.list (Value.outlines declaration.value))
    , .labelled "Important" (.flag declaration.important) ]

end CssSyntax

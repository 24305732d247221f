import CssSyntax.Syntax.Value

/-! The conditions that at-rules put before their blocks: media queries, the size conditions of
a container, and the support conditions. -/

namespace CssSyntax

/-- `(name: value)`, `(name)`, or a range such as `(width >= 600px)`, whose operator is part of
the value. -/
structure Feature where
  name : Bytes
  value : Option Bytes
deriving DecidableEq, Repr

def Feature.outline (feature : Feature) : Outline :=
  .leaf ("MediaFeature \x7b Name: " ++ quoted feature.name
    ++ ", Value: " ++ (feature.value.map quoted).getD "none" ++ " \x7d")

/-- One entry of a media query: a modifier, a type and the features joined by `and`. -/
structure MediaExpression where
  isNot : Bool
  isOnly : Bool
  mediaType : Option Bytes
  features : List Feature
deriving DecidableEq, Repr

def MediaExpression.outline (expression : MediaExpression) : Outline :=
  .record "MediaQueryExpression"
    [ .labelled "Not" (.flag expression.isNot)
    , .labelled "Only" (.flag expression.isOnly)
    , .labelled "MediaType" (.optional (expression.mediaType.map .bytes))
    , .labelled "Features" (.list (expression.features.map Feature.outline)) ]

structure MediaQuery where
  expressions : List MediaExpression
deriving DecidableEq, Repr

def MediaQuery.outline (query : MediaQuery) : Outline :=
  .record "MediaQuery"
    [.labelled "Expressions" (.list (query.expressions.map MediaExpression.outline))]

structure ContainerCondition where
  features : List Feature
deriving DecidableEq, Repr

def ContainerCondition.outline (condition : ContainerCondition) : Outline :=
  .record "ContainerCondition"
    [.labelled "Features" (.list (condition.features.map Feature.outline))]

inductive SupportsCondition where
  | declaration (key : Bytes) (value : List Value)
  | function (name : Bytes) (args : List Value)
  /-- `and` or `or`, as written. -/
  | operator (word : Bytes)
  | not (inner : SupportsCondition)
  | group (conditions : List SupportsCondition)

/-- A single condition stands for itself, any other number makes a group. -/
def SupportsCondition.ofSequence : List SupportsCondition → SupportsCondition
  | [condition] => condition
  | conditions => .group conditions

mutual

def SupportsCondition.outline : SupportsCondition → Outline
  | .declaration key value =>
    .record "SupportsDeclaration"
      [.labelled "Key" (.bytes key), .labelled "Value" (.list (Value.outlines value))]
  | .function name args =>
    .record "SupportsFunction"
      [.labelled "Name" (.bytes name), .labelled "Args" (.list (Value.outlines args))]
  | .operator word => .leaf ("SupportsOperator \x7b Op: " ++ quoted word ++ " \x7d")
  | .not inner =>
    .record "SupportsNot" [.labelled "Inner" (SupportsCondition.outline inner)]
  | .group conditions =>
    .record "SupportsGroup"
      [.labelled "Conditions" (.list (SupportsCondition.outlines conditions))]

def SupportsCondition.outlines : List SupportsCondition → List Outline
  | [] => []
  | condition :: rest => SupportsCondition.outline condition :: SupportsCondition.outlines rest

end

end CssSyntax

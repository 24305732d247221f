import CssSyntax.Syntax.Condition

/-! The syntax tree of a stylesheet: comments, rule-sets, declarations and at-rules in source
order. -/

namespace CssSyntax

/-- The kinds of node that a tree is made of. -/
inductive NodeKind where
  | stylesheet
  | comment
  | ruleSet
  | declaration
  | media
  | keyframes
  | keyframeStop
  | importRule
  | charset
  | fontFace
  | fontFeatureValues
  | featureBlock
  | colorProfile
  | counterStyle
  | container
  | supports
  | layer
  | page
  | namespaceRule
  | viewport
deriving DecidableEq, Repr

def NodeKind.name : NodeKind → String
  | stylesheet => "Stylesheet"
  | comment => "Comment"
  | ruleSet => "Selector"
  | declaration => "Declaration"
  | media => "MediaAtRule"
  | keyframes => "KeyframesAtRule"
  | keyframeStop => "KeyframeStop"
  | importRule => "ImportAtRule"
  | charset => "CharsetAtRule"
  | fontFace => "FontFaceAtRule"
  | fontFeatureValues => "FontFeatureValuesAtRule"
  | featureBlock => "FontFeatureValuesBlock"
  | colorProfile => "ColorProfileAtRule"
  | counterStyle => "CounterStyleAtRule"
  | container => "ContainerAtRule"
  | supports => "SupportsAtRule"
  | layer => "LayerAtRule"
  | page => "PageAtRule"
  | namespaceRule => "NamespaceAtRule"
  | viewport => "ViewportAtRule"

inductive SelectorKind where
  | element
  | className
  | idName
  | attributeMatch
  | pseudo
  | combinator
deriving DecidableEq, Repr

def SelectorKind.name : SelectorKind → String
  | element => "Element"
  | className => "Class"
  | idName => "ID"
  | attributeMatch => "Attribute"
  | pseudo => "Pseudo"
  | combinator => "Combinator"

/-- One part of a selector. Classes and ids keep their `.` and `#`, pseudo classes their colons
and attributes their brackets. -/
structure SelectorAtom where
  kind : SelectorKind
  value : Bytes
deriving DecidableEq, Repr

/-- `from`, `to` or percentages, and the declarations that hold there. -/
structure KeyframeStop where
  stops : List Bytes
  declarations : List Declaration

/-- A block such as `@swash { ... }` with the values of one kind of font feature. -/
structure FeatureBlock where
  name : Bytes
  declarations : List Declaration

/-- What a color profile is for: the device's own color space, or a dashed name. -/
inductive ProfileName where
  | deviceCmyk
  | dashed (name : Bytes)
deriving DecidableEq, Repr

/-- A member of a list of rules. A layer either names layers or holds a block of rules. -/
inductive Node where
  | comment (text : Bytes)
  | ruleSet (selectors : List SelectorAtom) (rules : List Node)
  | declaration (content : Declaration)
  | media (query : MediaQuery) (rules : List Node)
  | keyframes (name : Bytes) (webkit : Bool) (stops : List KeyframeStop)
  | importRule (url : Value) (layer : Option Value) (supports : Option SupportsCondition)
      (media : Option MediaQuery)
  | charset (name : Bytes)
  | fontFace (declarations : List Declaration)
  | fontFeatureValues (families : List Bytes) (blocks : List FeatureBlock)
  | colorProfile (profile : ProfileName) (declarations : List Declaration)
  | counterStyle (name : Bytes) (declarations : List Declaration)
  | container (name : Option Bytes) (query : List ContainerCondition) (rules : List Node)
  | supports (condition : SupportsCondition) (rules : List Node)
  | layerStatement (names : List Bytes)
  | layerBlock (names : List Bytes) (rules : List Node)
  | page (selector : Option Bytes) (declarations : List Declaration)
  | namespaceRule (label : Option Bytes) (url : Value)
  | viewport (name : Bytes) (declarations : List Declaration)

namespace Node

def kind : Node → NodeKind
  | comment .. => .comment
  | ruleSet .. => .ruleSet
  | declaration .. => .declaration
  | media .. => .media
  | keyframes .. => .keyframes
  | importRule .. => .importRule
  | charset .. => .charset
  | fontFace .. => .fontFace
  | fontFeatureValues .. => .fontFeatureValues
  | colorProfile .. => .colorProfile
  | counterStyle .. => .counterStyle
  | container .. => .container
  | supports .. => .supports
  | layerStatement .. => .layer
  | layerBlock .. => .layer
  | page .. => .page
  | namespaceRule .. => .namespaceRule
  | viewport .. => .viewport

def isAtRule : Node → Bool
  | comment .. => false
  | ruleSet .. => false
  | declaration .. => false
  | _ => true

end Node

structure Stylesheet where
  rules : List Node

end CssSyntax

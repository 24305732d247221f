import CssSyntax.Syntax.Node

/-! The outline of a tree: each node under the name of its kind, with its parts in a fixed order
under fixed labels. -/

namespace CssSyntax

def SelectorAtom.outline (atom : SelectorAtom) : Outline :=
  .leaf ("SelectorValue \x7b Kind: " ++ atom.kind.name ++ ", Value: " ++ quoted atom.value
    ++ " \x7d")

namespace Outline

/-- A node under its kind. -/
def node (kind : NodeKind) (fields : List Outline) : Outline := record kind.name fields

def optionalBytes (value : Option Bytes) : Outline := optional (value.map bytes)

def declarations (declarations : List Declaration) : Outline :=
  labelled "Declarations" (list (declarations.map Declaration.outline))

end Outline

def KeyframeStop.outline (stop : KeyframeStop) : Outline :=
  .node .keyframeStop
    [ .labelled "Stops" (.list (stop.stops.map .bytes))
    , .labelled "Rules" (.list (stop.declarations.map Declaration.outline)) ]

def FeatureBlock.outline (block : FeatureBlock) : Outline :=
  .node .featureBlock [.labelled "Name" (.bytes block.name), .declarations block.declarations]

def ProfileName.fields : ProfileName → List Outline
  | deviceCmyk => [.labelled "DeviceCmyk" (.flag true), .labelled "Name" .none]
  | dashed name => [.labelled "DeviceCmyk" (.flag false), .labelled "Name" (.bytes name)]

mutual

def Node.outline : Node → Outline
  | .comment text => .leaf ("Comment \x7b Text: " ++ quoted text ++ " \x7d")
  | .ruleSet selectors rules =>
    .node .ruleSet
      [ .labelled "Selectors" (.list (selectors.map SelectorAtom.outline))
      , .labelled "Rules" (.list (Node.outlines rules)) ]
  | .declaration content => Declaration.outline content
  | .media query rules =>
    .node .media
      [ .labelled "Query" (MediaQuery.outline query)
      , .labelled "Rules" (.list (Node.outlines rules)) ]
  | .keyframes name webkit stops =>
    .node .keyframes
      [ .labelled "Name" (.bytes name)
      , .labelled "WebkitPrefix" (.flag webkit)
      , .labelled "Stops" (.list (stops.map KeyframeStop.outline)) ]
  | .importRule url layer support query =>
    .node .importRule
      [ .labelled "Url" (Value.outline url)
      , .labelled "Layer" (.optional (layer.map Value.outline))
      , .labelled "Supports" (.optional (support.map SupportsCondition.outline))
      , .labelled "Media" (.optional (query.map MediaQuery.outline)) ]
  | .charset name => .node .charset [.labelled "Charset" (.bytes name)]
  | .fontFace declarations => .node .fontFace [.declarations declarations]
  | .fontFeatureValues families blocks =>
    .node .fontFeatureValues
      [ .labelled "FontFamilies" (.list (families.map .bytes))
      , .labelled "Blocks" (.list (blocks.map FeatureBlock.outline)) ]
  | .colorProfile profile declarations =>
    .node .colorProfile (profile.fields ++ [.declarations declarations])
  | .counterStyle name declarations =>
    .node .counterStyle [.labelled "Name" (.bytes name), .declarations declarations]
  | .container name query rules =>
    .node .container
      [ .labelled "Name" (.optionalBytes name)
      , .labelled "Query" (.list (query.map ContainerCondition.outline))
      , .labelled "Rules" (.list (Node.outlines rules)) ]
  | .supports condition rules =>
    .node .supports
      [ .labelled "Condition" (SupportsCondition.outline condition)
      , .labelled "Rules" (.list (Node.outlines rules)) ]
  | .layerStatement names =>
    .node .layer [.labelled "Names" (.list (names.map .bytes)), .labelled "Rules" .none]
  | .layerBlock names rules =>
    .node .layer
      [ .labelled "Names" (.list (names.map .bytes))
      , .labelled "Rules" (.list (Node.outlines rules)) ]
  | .page selector declarations =>
    .node .page [.labelled "Selector" (.optionalBytes selector), .declarations declarations]
  | .namespaceRule label url =>
    .node .namespaceRule
      [.labelled "Prefix" (.optionalBytes label), .labelled "Url" (Value.outline url)]
  | .viewport name declarations =>
    .node .viewport [.labelled "Name" (.bytes name), .declarations declarations]

def Node.outlines : List Node → List Outline
  | [] => []
  | node :: rest => Node.outline node :: Node.outlines rest

end

def Stylesheet.outline (sheet : Stylesheet) : Outline :=
  .node .stylesheet [.labelled "Rules" (.list (Node.outlines sheet.rules))]

end CssSyntax

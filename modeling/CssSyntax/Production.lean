import CssSyntax.Grammar.Rule
import CssSyntax.Syntax.Tree

/-! The productions of the grammar that can be read on their own, from any place in the tokens.
Those of at-rules start after the name of the rule. -/

namespace CssSyntax

/-- What a production yields. -/
inductive Fragment where
  | stylesheet (sheet : Stylesheet)
  | node (node : Node)
  | declaration (declaration : Declaration)
  | stop (stop : KeyframeStop)
  | value (value : Value)
  | query (query : MediaQuery)
  | feature (feature : Feature)
  | supports (condition : SupportsCondition)
  | container (condition : ContainerCondition)

namespace Fragment

/-- The kind of a fragment that is a node. -/
def kind? : Fragment → Option NodeKind
  | stylesheet _ => some .stylesheet
  | node content => some content.kind
  | declaration _ => some .declaration
  | stop _ => some .keyframeStop
  | _ => none

def outline : Fragment → Outline
  | stylesheet sheet => sheet.outline
  | node content => content.outline
  | declaration content => content.outline
  | stop content => content.outline
  | value content => content.outline
  | query content => content.outline
  | feature content => content.outline
  | supports condition => condition.outline
  | container condition => condition.outline

end Fragment

inductive Production where
  | stylesheet
  | comment
  | ruleSet
  | declaration
  | value
  | call
  | atRule
  | media
  | mediaQuery
  | mediaFeature
  | keyframes (webkit : Bool)
  | keyframeStop
  | importRule
  | supports
  | supportsCondition (terminator : Kind)
  | charset
  | namespaceRule
  | layer
  | fontFace
  | counterStyle
  | colorProfile
  | page
  | viewport (name : Bytes)
  | fontFeatureValues
  | container
  | containerCondition

namespace Production

open Grammar

/-- A result that is always there. -/
def always {α : Type} (fragment : α → Fragment) (reading : Reading α) :
    Reading (Option Fragment) :=
  (fun found => some (fragment found)) <$> reading

/-- A result that may be missing. -/
def sometimes {α : Type} (fragment : α → Fragment) (reading : Reading (Option α)) :
    Reading (Option Fragment) :=
  (fun found => found.map fragment) <$> reading

/-- Reads the production with `room` for blocks and groups. -/
def readWithin (room : Nat) : Production → Reading (Option Fragment)
  | stylesheet => always .stylesheet (Grammar.stylesheet room)
  | comment => sometimes .node Grammar.comment
  | ruleSet => sometimes .node (Grammar.ruleSet room)
  | declaration => sometimes .declaration (Grammar.declaration room)
  | value => sometimes .value (Grammar.value room)
  | call => always .value (Grammar.call room)
  | atRule => sometimes .node (Grammar.atRule room)
  | media => sometimes .node (Grammar.media (Grammar.ruleSet room) (Grammar.atRule room))
  | mediaQuery => always .query Grammar.mediaQuery
  | mediaFeature => sometimes .feature Grammar.mediaFeature
  | keyframes webkit => sometimes .node (Grammar.keyframes room webkit)
  | keyframeStop => sometimes .stop (Grammar.keyframeStop room)
  | importRule => sometimes .node (Grammar.importRule room)
  | supports =>
    sometimes .node (Grammar.supportsRule room (Grammar.ruleSet room) (Grammar.atRule room))
  | supportsCondition terminator =>
    always .supports (Grammar.supportsCondition room terminator)
  | charset => sometimes .node Grammar.charset
  | namespaceRule => sometimes .node (Grammar.namespaceRule room)
  | layer => sometimes .node (Grammar.layer (Grammar.ruleSet room) (Grammar.atRule room))
  | fontFace => sometimes .node (Grammar.fontFace room)
  | counterStyle => sometimes .node (Grammar.counterStyle room)
  | colorProfile => sometimes .node (Grammar.colorProfile room)
  | page => sometimes .node (Grammar.page room)
  | viewport name => sometimes .node (Grammar.viewport room name)
  | fontFeatureValues => sometimes .node (Grammar.fontFeatureValues room)
  | container =>
    sometimes .node (Grammar.container room (Grammar.ruleSet room) (Grammar.atRule room))
  | containerCondition => always .container (Grammar.containerCondition room)

def read (production : Production) : Reading (Option Fragment) :=
  production.readWithin nestingLimit

end Production

end CssSyntax

import CssSyntax.Grammar.Container
import CssSyntax.Grammar.DeclarationRule
import CssSyntax.Grammar.Selector
import CssSyntax.Grammar.Statement

/-! Reading rules. Rule-sets and at-rules hold one another, so both are read by recursion on the
room that is left for blocks and groups: a block that finds none is skipped with one problem. -/

namespace CssSyntax.Grammar

open Reading

def comment : Reading (Option Node) := do
  let token ← current
  advance
  return if ← peek (·.settings.keepComments) then some (.comment token.literal) else none

/-- The current token with a problem for it. -/
def dropToken (place : String) : Reading (List Node) := do
  report (.misplaced place)
  advance
  return []

def nodes (reading : Reading (Option Node)) : Reading (List Node) := Option.toList <$> reading

/-- A name in a block starts a declaration, unless a block follows it. -/
def nameMember (room : Nat) (ruleSet : Reading (Option Node)) : Reading (List Node) := do
  if ← blockFollows then nodes ruleSet
  else return (← declaration room).toList.map .declaration

/-- An at-rule where none may stand: it is read and dropped. -/
def strayAtRule (atRule : Reading (Option Node)) (place : String) : Reading (List Node) := do
  report (.misplaced place)
  let _ ← atRule
  return []

def brokenDeclaration : Reading (List Node) := do
  report .noPropertyName
  skipDeclaration
  return []

/-- What a block of declarations and nested rule-sets is made of. `other` reads the tokens that
start neither. -/
def styleMember (room : Nat) (ruleSet atRule : Reading (Option Node)) (place : String)
    (other : Reading (List Node)) : Reading (List Node) := do
  let token ← current
  match token.kind with
  | .semicolon => do
    advance
    return []
  | .comment => nodes comment
  | .ident => nameMember room ruleSet
  | .atSign => strayAtRule atRule place
  | kind => if startsRuleSet kind then nodes ruleSet else other

def ruleSetBody (room : Nat) (ruleSet atRule : Reading (Option Node)) : Reading (List Node) :=
  blockBody "selector block" (styleMember room ruleSet atRule "selector" brokenDeclaration)

def containerBody (room : Nat) (ruleSet atRule : Reading (Option Node)) : Reading (List Node) :=
  blockBody "container rule"
    (styleMember room ruleSet atRule "container rule" (dropToken "container rule"))

/-- What a block of rules is made of. -/
def ruleMember (ruleSet atRule : Reading (Option Node)) (place : String) :
    Reading (List Node) := do
  let token ← current
  match token.kind with
  | .semicolon => do
    advance
    return []
  | .comment => nodes comment
  | .atSign => nodes atRule
  | kind => if startsRuleSet kind then nodes ruleSet else dropToken place

def nestedRules (ruleSet atRule : Reading (Option Node)) (place : String) : Reading (List Node) :=
  blockBody place (ruleMember ruleSet atRule place)

def media (ruleSet atRule : Reading (Option Node)) : Reading (Option Node) := do
  let query ← mediaQuery
  blockWith "media query" (Node.media query <$> nestedRules ruleSet atRule "media block")

def supportsRule (room : Nat) (ruleSet atRule : Reading (Option Node)) :
    Reading (Option Node) := do
  let condition ← supportsCondition room .openBrace
  blockWith "supports condition"
    (Node.supports condition <$> nestedRules ruleSet atRule "supports block")

def container (room : Nat) (ruleSet atRule : Reading (Option Node)) : Reading (Option Node) := do
  let label ← containerLabel
  let query ← containerQuery room
  blockWith "container query" (Node.container label query <$> containerBody room ruleSet atRule)

/-- How many tokens name inner layers: points, each with a name right after it. -/
def innerLayers : List Token → Nat
  | point :: name :: rest =>
    if point.kind = .dot ∧ name.kind = .ident ∧ point.stop = name.start.offset then
      innerLayers rest + 2
    else 0
  | _ => 0

/-- A layer name with the names of its inner layers. -/
def layerName : Reading (List Bytes) := do
  let first ← current
  advance
  let others ← take innerLayers
  return [first.literal ++ literals others]

def layerPart : Reading (List Bytes) := do
  let token ← current
  match token.kind with
  | .comment | .comma => do
    advance
    return []
  | .ident => layerName
  | _ => do
    report (.misplaced "layer rule")
    advance
    return []

def layerStatement (names : List Bytes) : Reading (Option Node) := do
  reportIf names.isEmpty (.missingAfter "layer name" "@layer")
  advance
  return some (.layerStatement names)

def layerBlock (ruleSet atRule : Reading (Option Node)) (names : List Bytes) :
    Reading (Option Node) := do
  advance
  return some (.layerBlock names (← nestedRules ruleSet atRule "layer block"))

def layer (ruleSet atRule : Reading (Option Node)) : Reading (Option Node) := do
  let names ← collect Token.isStructural layerPart
  if ← currentIs .semicolon then layerStatement names
  else if ← currentIs .openBrace then layerBlock ruleSet atRule names
  else
    report (.missingAfter "';' or '\x7b'" "layer name")
    return none

/-- The at-rule of a kind after its name. -/
def atRuleBody (room : Nat) (ruleSet atRule : Reading (Option Node)) (name : Bytes) :
    AtRule → Reading (Option Node)
  | .media => media ruleSet atRule
  | .keyframes => keyframes room false
  | .webkitKeyframes => keyframes room true
  | .importRule => importRule room
  | .charset => charset
  | .fontFace => fontFace room
  | .fontFeatureValues => fontFeatureValues room
  | .colorProfile => colorProfile room
  | .counterStyle => counterStyle room
  | .container => container room ruleSet atRule
  | .supports => supportsRule room ruleSet atRule
  | .layer => layer ruleSet atRule
  | .page => page room
  | .namespaceRule => namespaceRule room
  | .viewport => viewport room name

/-- True at an `@` that a name follows without a gap. -/
def namesAtRule (parser : Parser) : Bool := parser.nextIs .ident && parser.isAdjacent 1

/-- An at-rule that the registry does not know is skipped whole. -/
def skipUnknown (name : Token) : Reading (Option Node) := do
  reportAt .unknownAtRule name
  advance
  skipAtRule
  return none

/-- The at-rule that the current name stands for. -/
def namedAtRule (body : Bytes → AtRule → Reading (Option Node)) : Reading (Option Node) := do
  let name ← current
  match ← peek (·.settings.registry.lookup name.literal) with
  | none => skipUnknown name
  | some rule => do
    advance
    skipComments
    body name.literal rule

/-- An at-rule from its `@` on, given how its kind is read after its name. -/
def atRuleWith (body : Bytes → AtRule → Reading (Option Node)) : Reading (Option Node) := do
  let named ← peek namesAtRule
  advance
  if named then namedAtRule body
  else
    report (.missingAfter "identifier" "'@'")
    skipAtRule
    return none

def refusedBlock : Reading (Option (List Node)) := do
  report (.misplaced "selector")
  skipBlock
  return none

def refusedAtRule : Reading (Option Node) := do
  report (.misplaced "nested at-rule")
  skipAtRule
  return none

/-- The block of a rule-set from its `{` on. -/
def ruleSetBlock (room : Nat) (ruleSet atRule : Reading (Option Node)) :
    Reading (Option (List Node)) := do
  advance
  return some (← ruleSetBody room ruleSet atRule)

mutual

def ruleSet : Nat → Reading (Option Node)
  | 0 => ruleSetWith refusedBlock
  | room + 1 =>
    ruleSetWith (ruleSetBlock room (later fun _ => ruleSet room) (later fun _ => atRule room))

def atRule : Nat → Reading (Option Node)
  | 0 => refusedAtRule
  | room + 1 =>
    atRuleWith (atRuleBody room (later fun _ => ruleSet room) (later fun _ => atRule room))

end

def topMember (room : Nat) : Reading (List Node) := do
  let token ← current
  match token.kind with
  | .comment => nodes comment
  | .atSign => nodes (atRule room)
  | kind =>
    if startsRuleSet kind then nodes (ruleSet room)
    else
      report .misplacedAtTop
      advance
      return []

/-- The rules up to the end of the input. -/
def stylesheet (room : Nat) : Reading Stylesheet := do
  let rules ← collect (fun token => token.kind == .eof) (topMember room)
  return ⟨rules⟩

/-- How deep blocks and groups may nest. -/
def nestingLimit : Nat := 128

end CssSyntax.Grammar

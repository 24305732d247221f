import CssSyntax.Grammar.MediaQuery

/-! Reading the conditions of a container. Groups in groups add their features to the same
condition. -/

namespace CssSyntax.Grammar

open Reading

def isAnd (token : Token) : Bool := token.isWord Word.andWord

def containerValue : Reading Bytes := featureValue isAnd

/-- What follows the name of a container feature. -/
def containerFeatureValue : Reading (Option Bytes) := do
  if ← accept .colon then return some (← containerValue)
  else
    let token ← current
    if token.kind = .closeParen ∨ isAnd token then return none
    else return some (← containerValue)

def containerFeature (name : Token) : Reading (List Feature) := do
  advance
  skipComments
  let value ← containerFeatureValue
  return [⟨name.literal, value⟩]

def containerName (token : Token) : Reading (List Feature) := do
  if isAnd token then
    advance
    return []
  else containerFeature token

def dropContainerToken : Reading (List Feature) := do
  report (.misplaced "container rule")
  advance
  return []

def containerToken (group : Reading ContainerCondition) : Reading (List Feature) := do
  let token ← current
  match token.kind with
  | .ident => containerName token
  | .openParen => ContainerCondition.features <$> group
  | _ => dropContainerToken

def containerPart (group : Reading ContainerCondition) : Reading (List Feature) := do
  let found ← containerToken group
  skipComments
  return found

def endsContainerGroup (token : Token) : Bool :=
  token.kind == .closeParen || token.isStructural

def refusedContainerGroup : Reading ContainerCondition := do
  report (.misplaced "container rule")
  advance
  skipGroup
  return ⟨[]⟩

/-- A condition from its `(` to after its `)`. -/
def containerCondition : Nat → Reading ContainerCondition
  | 0 => refusedContainerGroup
  | room + 1 => do
    advance
    skipComments
    let features ← collect endsContainerGroup
      (containerPart (later fun _ => containerCondition room))
    let _ ← expect .closeParen (.missingAfter "')'" "container condition")
    return ⟨features⟩

/-- The name of a container, if the rule starts with one. -/
def isContainerName (parser : Parser) : Bool :=
  let token := parser.current
  token.kind == .ident && !token.isWord Word.notWord && !isAnd token
    && !(parser.nextIs .openParen && parser.isAdjacent 1)

def containerLabel : Reading (Option Bytes) := do
  let token ← current
  if ← peek isContainerName then
    advance
    return some token.literal
  else return none

def containerQuery (room : Nat) : Reading (List ContainerCondition) := do
  let query ← conjuncts do return [← containerCondition room]
  dropRest Token.isStructural "container rule"
  return query

end CssSyntax.Grammar

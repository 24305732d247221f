import CssSyntax.Grammar.Word
import CssSyntax.Parser.Span
import CssSyntax.Parser.Verbatim
import CssSyntax.Syntax.Condition

/-! Reading media queries: expressions between commas, each of an optional modifier, an optional
type and features in parentheses. -/

namespace CssSyntax.Grammar

open Reading

/-- The value of a feature up to its `)`. With `stop` the value may end before that. -/
def featureValue (stop : Token → Bool) : Reading Bytes :=
  do return verbatim (← take (Span.inside stop 0))

/-- What follows the name of a media feature. -/
def mediaFeatureValue : Reading (Option Bytes) := do
  if ← accept .colon then
    let value ← featureValue fun _ => false
    reportIf value.isEmpty .noValue
    return some value
  else if ← currentIs .closeParen then return none
  else return some (← featureValue fun _ => false)

/-- The `)` of a media feature. Without it the rest of the group is dropped. -/
def closeFeature : Reading Unit := do
  if ← expect .closeParen (.missingAfter "')'" "media feature") then return ()
  else skipGroup

/-- A media feature from its `(` to after its `)`. -/
def mediaFeature : Reading (Option Feature) := do
  advance
  skipComments
  let name ← current
  if name.kind = .ident then
    advance
    skipComments
    let value ← mediaFeatureValue
    closeFeature
    return some ⟨name.literal, value⟩
  else
    report (.missingAfter "feature name" "'('")
    skipGroup
    return none

/-- The `and` between two conditions. A condition has to follow. -/
def conjunction : Reading Unit := do
  advance
  skipComments
  reportIf (!(← currentIs .openParen)) (.missingAfter "'('" "'and'")

def isConjunct (token : Token) : Bool := token.kind == .openParen || token.isWord Word.andWord

def conjunct {α : Type} (condition : Reading (List α)) : Reading (List α) := do
  if ← currentIs .openParen then
    let found ← condition
    skipComments
    return found
  else
    conjunction
    return []

/-- Conditions in parentheses, joined by `and`. -/
def conjuncts {α : Type} (condition : Reading (List α)) : Reading (List α) := do
  skipComments
  collect (fun token => !isConjunct token) (conjunct condition)

/-- Whether the expression is negated, and whether it is kept from older readers. -/
def mediaModifier : Reading (Bool × Bool) := do
  if ← acceptWord Word.notWord then return (true, false)
  else if ← acceptWord Word.onlyWord then return (false, true)
  else return (false, false)

def mediaType : Reading (Option Bytes) := do
  let token ← current
  if token.kind = .ident ∧ !token.isWord Word.andWord then
    advance
    return some token.literal
  else return none

def endsExpression (token : Token) : Bool := token.kind == .comma || token.isStructural

/-- Records one problem if tokens are left before one in `stop`, and drops them. -/
def dropRest (stop : Token → Bool) (place : String) : Reading Unit := do
  if stop (← current) then return ()
  else
    report (.misplaced place)
    skip (Span.before stop)

def mediaExpression : Reading MediaExpression := do
  skipComments
  let modifier ← mediaModifier
  skipComments
  let type ← mediaType
  let features ← conjuncts (Option.toList <$> mediaFeature)
  dropRest endsExpression "media block"
  return ⟨modifier.1, modifier.2, type, features⟩

/-- A further expression after its comma. -/
def nextExpression : Reading (List MediaExpression) := do
  advance
  skipComments
  return [← mediaExpression]

/-- The expressions up to the `{` or `;` after them. -/
def mediaQuery : Reading MediaQuery := do
  skipComments
  if (← current).isStructural then return ⟨[]⟩
  else
    let first ← mediaExpression
    let others ← collect (fun token => token.kind != .comma) nextExpression
    return ⟨first :: others⟩

end CssSyntax.Grammar

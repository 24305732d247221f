import CssSyntax.Grammar.Declaration
import CssSyntax.Syntax.Condition

/-! Reading support conditions: declarations and groups in parentheses, calls, and the words
`not`, `and` and `or`. Outside of the arguments of a call no condition goes past a brace or a
semicolon. -/

namespace CssSyntax.Grammar

open Reading

/-- The `!` of `! important` is a value of its own here. -/
def supportsValue (room : Nat) : Reading (List Value) := do
  if ← importantFollows then return [← plainValue] else separatedValue (value room)

def endsSupportsDeclaration (token : Token) : Bool :=
  token.kind == .closeParen || token.isStructural

/-- A declaration from its name on, without the parentheses around it. -/
def supportsDeclaration (room : Nat) : Reading SupportsCondition := do
  let key ← current
  advance
  advance
  let values ← collect endsSupportsDeclaration (supportsValue room)
  reportIf values.isEmpty .noValue
  return .declaration key.literal values

def supportsCall (room : Nat) : Reading SupportsCondition := do
  let name ← current
  advance
  advance
  return .function name.literal (← arguments room)

def supportsOperator (token : Token) : Reading SupportsCondition := do
  advance
  return .operator token.literal

/-- The condition that `not` is put before. -/
def supportsNegation (group : Reading (Option SupportsCondition)) :
    Reading (Option SupportsCondition) := do
  advance
  skipComments
  if ← currentIs .openParen then return (← group).map .not
  else
    report (.missingAfter "'('" "'not'")
    return none

def dropSupportsToken : Reading (List SupportsCondition) := do
  report (.misplaced "supports condition")
  advance
  return []

/-- What starts with a name: an operator, a negation, a declaration or a call. -/
def supportsName (room : Nat) (group : Reading (Option SupportsCondition)) (token : Token) :
    Reading (List SupportsCondition) := do
  if token.isWord Word.andWord || token.isWord Word.orWord then return [← supportsOperator token]
  else if token.isWord Word.notWord then return (← supportsNegation group).toList
  else if ← nextIs .colon then return [← supportsDeclaration room]
  else if ← nextIs .openParen then return [← supportsCall room]
  else dropSupportsToken

def supportsPart (room : Nat) (group : Reading (Option SupportsCondition)) :
    Reading (List SupportsCondition) := do
  let token ← current
  match token.kind with
  | .comment => do
    advance
    return []
  | .openParen => return (← group).toList
  | .ident => supportsName room group token
  | _ => dropSupportsToken

def endsSupports (terminator : Kind) (token : Token) : Bool :=
  token.kind == terminator || token.isStructural

def supportsSequence (room : Nat) (group : Reading (Option SupportsCondition))
    (terminator : Kind) : Reading (List SupportsCondition) :=
  collect (endsSupports terminator) (supportsPart room group)

def refusedSupportsGroup : Reading (Option SupportsCondition) := do
  report (.misplaced "supports condition")
  advance
  skipGroup
  return none

/-- A condition in parentheses. An empty one is none. -/
def supportsGroup : Nat → Reading (Option SupportsCondition)
  | 0 => refusedSupportsGroup
  | room + 1 => do
    advance
    let conditions ← supportsSequence room (later fun _ => supportsGroup room) .closeParen
    reportIf conditions.isEmpty (.missingAfter "condition" "'('")
    let _ ← expect .closeParen (.missingAfter "')'" "supports condition")
    return if conditions.isEmpty then none else some (.ofSequence conditions)

/-- The condition up to a token of the kind `terminator`, which is left. -/
def supportsCondition (room : Nat) (terminator : Kind) : Reading SupportsCondition :=
  .group <$> supportsSequence room (supportsGroup room) terminator

end CssSyntax.Grammar

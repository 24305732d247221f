import CssSyntax.Parser.Span
import CssSyntax.Parser.Verbatim
import CssSyntax.Syntax.Node

/-! Reading selectors. A selector is a run of atoms up to the `{` of its block. Attribute tests
and the arguments of pseudo classes are kept as written. -/

namespace CssSyntax.Grammar

open Reading

/-- The kinds of token that a rule-set may start with. -/
def startsRuleSet : Kind → Bool
  | .dot => true
  | .hash => true
  | .color => true
  | .colon => true
  | .doubleColon => true
  | .ident => true
  | .openBracket => true
  | .asterisk => true
  | _ => false

/-- The name after a `.` or `#`. -/
def markedName (mark : Token) (kind : SelectorKind) (place : String) :
    Reading (List SelectorAtom) := do
  advance
  let name ← current
  if name.kind = .ident then
    advance
    return [⟨kind, mark.literal ++ name.literal⟩]
  else
    report (.missingAfter "identifier" place)
    return []

def endsAttribute (token : Token) : Bool :=
  token.kind == .closeBracket || token.kind == .eof || token.kind == .openBrace
    || token.kind == .closeBrace

/-- An attribute test. It is kept with both brackets, also if the closing one is missing. -/
def attributeAtom : Reading SelectorAtom := do
  advance
  let test ← take (Span.before endsAttribute)
  let _ ← expect .closeBracket (.missingAfter "']'" "attribute selector")
  return ⟨.attributeMatch, utf8 "[" ++ verbatim test ++ utf8 "]"⟩

/-- The argument of a pseudo class with its parentheses. -/
def pseudoArgument : Reading Bytes := do
  let opening ← current
  advance
  let inner ← take (Span.inside (fun _ => false) 0)
  let closing ← current
  if ← expect .closeParen (.missingAfter "')'" "pseudo argument") then
    return verbatim (opening :: inner ++ [closing])
  else return verbatim (opening :: inner)

def optionalArgument : Reading Bytes := do
  if ← currentIs .openParen then pseudoArgument else return []

/-- A pseudo class or element from its colons on. -/
def pseudoAtom (colons : Token) : Reading (List SelectorAtom) := do
  advance
  let name ← current
  if name.kind = .ident then
    advance
    let argument ← optionalArgument
    return [⟨.pseudo, colons.literal ++ name.literal ++ argument⟩]
  else
    report (.missingAfter "identifier" "':'")
    return []

/-- The current token as an atom of its own. -/
def tokenAtom (kind : SelectorKind) (token : Token) : Reading (List SelectorAtom) := do
  advance
  return [⟨kind, token.literal⟩]

def selectorAtom : Reading (List SelectorAtom) := do
  let token ← current
  match token.kind with
  | .comment => do
    advance
    return []
  | .ident | .asterisk => tokenAtom .element token
  | .dot => markedName token .className "'.'"
  | .hash => markedName token .idName "'#'"
  | .color => tokenAtom .idName token
  | .openBracket => return [← attributeAtom]
  | .colon | .doubleColon => pseudoAtom token
  | .comma | .greater | .plus | .tilde => tokenAtom .combinator token
  | _ => do
    report (.misplaced "selector")
    advance
    return []

/-- A rule-set, given how its block is read from the `{` on. -/
def ruleSetWith (block : Reading (Option (List Node))) : Reading (Option Node) := do
  let selectors ← collect Token.isStructural selectorAtom
  if ← currentIs .openBrace then return (← block).map (Node.ruleSet selectors)
  else
    report (.noOpening "selector")
    return none

end CssSyntax.Grammar

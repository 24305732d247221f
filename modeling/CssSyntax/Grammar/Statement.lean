import CssSyntax.Grammar.MediaQuery
import CssSyntax.Grammar.Supports
import CssSyntax.Syntax.Node

/-! Reading the at-rules that end with a semicolon: imports, character sets and namespaces. -/

namespace CssSyntax.Grammar

open Reading

def startsUrl (parser : Parser) : Bool :=
  parser.current.isQuotedOrUri
    || (parser.current.isWord Word.urlWord && parser.nextIs .openParen)

/-- A string or a url. None leaves the tokens alone. -/
def url (room : Nat) : Reading (Option Value) := do
  skipComments
  if ← peek startsUrl then value room else return none

/-- The optional parts of an import. -/
structure ImportClauses where
  layer : Option Value
  supports : Option SupportsCondition
  media : Option MediaQuery

def layerClause (room : Nat) : Reading Value := do
  if ← nextIs .openParen then call room else plainValue

def supportsClause (room : Nat) : Reading SupportsCondition := do
  advance
  advance
  let condition ← supportsCondition room .closeParen
  let _ ← expect .closeParen (.missingAfter "')'" "supports condition")
  return condition

/-- The first clause of its sort is kept. A second one is a problem at the word it starts with. -/
def keepFirst {α : Type} (kept : Option α) (clause : α) (token : Token) : Reading (Option α) := do
  match kept with
  | none => return some clause
  | some first => do
    reportAt (.misplaced "import rule") token
    return some first

/-- One clause of an import, given those before it. -/
def importClause (room : Nat) (clauses : ImportClauses) : Reading ImportClauses := do
  let token ← current
  if token.isWord Word.layerWord then
    let layer ← layerClause room
    return { clauses with layer := ← keepFirst clauses.layer layer token }
  else if token.isWord Word.supportsWord && (← nextIs .openParen) then
    let supports ← supportsClause room
    return { clauses with supports := ← keepFirst clauses.supports supports token }
  else if (token.kind == .ident || token.kind == .openParen) && clauses.media.isNone then
    return { clauses with media := some (← mediaQuery) }
  else
    report (.misplaced "import rule")
    advance
    return clauses

def separatedClause (room : Nat) (clauses : ImportClauses) : Reading ImportClauses := do
  let found ← importClause room clauses
  skipComments
  return found

def noUrl (place : String) : Problem := .missingAfter "string or url()" place

def noSemicolon (place : String) : Problem := .missingAfter "';'" place

def importRule (room : Nat) : Reading (Option Node) := do
  match ← url room with
  | none => do
    report (noUrl "@import")
    skipDeclaration
    return none
  | some address => do
    skipComments
    let clauses ← iterate Token.isStructural (separatedClause room) ⟨none, none, none⟩
    let _ ← expect .semicolon (noSemicolon "@import")
    return some (.importRule address clauses.layer clauses.supports clauses.media)

def charset : Reading (Option Node) := do
  let token ← current
  if token.kind = .string then
    advance
    let _ ← expect .semicolon (noSemicolon "@charset")
    return some (.charset (StringLiteral.ofLiteral token.literal).content)
  else
    report (.missingAfter "string" "@charset")
    skipDeclaration
    return none

/-- A name before the url of a namespace. -/
def namespaceLabel : Reading (Option Bytes) := do
  let token ← current
  if token.kind = .ident && !(← peek startsUrl) then
    advance
    return some token.literal
  else return none

def namespaceRule (room : Nat) : Reading (Option Node) := do
  let label ← namespaceLabel
  match ← url room with
  | none => do
    report (noUrl "@namespace")
    skipDeclaration
    return none
  | some address => do
    skipComments
    let _ ← expect .semicolon (noSemicolon "@namespace")
    return some (.namespaceRule label address)

end CssSyntax.Grammar

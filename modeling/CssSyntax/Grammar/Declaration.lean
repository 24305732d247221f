import CssSyntax.Grammar.Value
import CssSyntax.Grammar.Word

/-! Reading declarations and the blocks that hold nothing else. -/

namespace CssSyntax.Grammar

open Reading

/-- What stands between the colon and the end of a declaration. -/
inductive DeclarationPart where
  | atom (value : Value)
  | important

def DeclarationPart.value? : DeclarationPart → Option Value
  | atom value => some value
  | important => none

def DeclarationPart.isImportant : DeclarationPart → Bool
  | atom _ => false
  | important => true

/-- True at a `!` directly before the word `important`. -/
def importantFollows : Reading Bool :=
  peek fun parser => parser.currentIs .exclamation && parser.next.isWord Word.importantWord

def endsDeclaration (token : Token) : Bool :=
  token.kind == .semicolon || token.kind == .closeBrace || token.kind == .eof

def declarationPart (value : Reading (Option Value)) : Reading (List DeclarationPart) := do
  if ← importantFollows then
    advance
    advance
    return [.important]
  else return (← separatedValue value).map .atom

/-- Custom properties start with two hyphens. They alone may have no value. -/
def isCustomProperty (key : Bytes) : Bool := (utf8 "--").isPrefixOf key

def declarationBody (room : Nat) (key : Bytes) : Reading (Option Declaration) := do
  let parts ← collect endsDeclaration (declarationPart (value room))
  let values := parts.filterMap DeclarationPart.value?
  if values.isEmpty && !isCustomProperty key then
    report .noValue
    return none
  else return some ⟨key, values, parts.any DeclarationPart.isImportant⟩

/-- A declaration up to the token that ends it. -/
def declaration (room : Nat) : Reading (Option Declaration) := do
  let key ← current
  if key.kind = .ident then
    advance
    if ← expect .colon (.missingAfter "':'" "property name") then declarationBody room key.literal
    else
      skipDeclaration
      return none
  else
    report .noPropertyName
    skipDeclaration
    return none

def endsBlock (token : Token) : Bool := token.kind == .closeBrace || token.kind == .eof

/-- The `}` of a block, or the end of the input in its place. -/
def closeBlock (place : String) : Reading Unit := do
  if ← currentIs .closeBrace then advance else report (.noClosing place)

def blockDeclaration (room : Nat) : Reading (List Declaration) := do
  let token ← current
  if token.kind = .semicolon ∨ token.kind = .comment then
    advance
    return []
  else if token.kind = .ident then return (← declaration room).toList
  else
    report .noPropertyName
    skipDeclaration
    return []

/-- What a block is made of, from after its `{` to after the `}` that ends it. -/
def blockBody {α : Type} (place : String) (member : Reading (List α)) : Reading (List α) := do
  let found ← collect endsBlock member
  closeBlock place
  return found

def declarations (room : Nat) (place : String) : Reading (List Declaration) :=
  blockBody place (blockDeclaration room)

/-- A block after what stands before it. Without its `{` the rest of the block is dropped. -/
def blockWith {α : Type} (prelude : String) (body : Reading α) : Reading (Option α) := do
  if ← expect .openBrace (.noOpening prelude) then return some (← body)
  else
    skipBlock
    return none

def declarationBlock (room : Nat) (place : String) : Reading (Option (List Declaration)) :=
  blockWith place (declarations room place)

end CssSyntax.Grammar

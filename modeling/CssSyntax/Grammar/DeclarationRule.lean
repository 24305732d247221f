import CssSyntax.Grammar.Declaration
import CssSyntax.Parser.Verbatim
import CssSyntax.Syntax.Node

/-! Reading the at-rules whose blocks hold only declarations, and those whose blocks hold blocks
of declarations. -/

namespace CssSyntax.Grammar

open Reading

def fontFace (room : Nat) : Reading (Option Node) := do
  return (← declarationBlock room "@font-face").map .fontFace

def counterStyle (room : Nat) : Reading (Option Node) := do
  let name ← current
  if name.kind = .ident then
    advance
    skipComments
    return (← declarationBlock room "@counter-style").map (.counterStyle name.literal)
  else
    report (.missingAfter "identifier" "@counter-style")
    skipBlock
    return none

def profileName (token : Token) : Option ProfileName :=
  if token.isWord Word.deviceCmyk then some .deviceCmyk
  else if token.kind = .ident ∧ isCustomProperty token.literal then some (.dashed token.literal)
  else none

def colorProfile (room : Nat) : Reading (Option Node) := do
  match profileName (← current) with
  | some profile => do
    advance
    skipComments
    return (← declarationBlock room "@color-profile").map (.colorProfile profile)
  | none => do
    report (.missingAfter "dashed-ident or device-cmyk" "@color-profile")
    skipBlock
    return none

/-- The name of a page and its pseudo pages, kept as written. -/
def pageSelector (tokens : List Token) : Option Bytes :=
  if (Verbatim.kept tokens).isEmpty then none else some (verbatim tokens)

def page (room : Nat) : Reading (Option Node) := do
  let tokens ← take (Span.before Token.isStructural)
  return (← declarationBlock room "@page").map (.page (pageSelector tokens))

def viewport (room : Nat) (name : Bytes) : Reading (Option Node) := do
  return (← declarationBlock room "@viewport").map (.viewport name)

/-- One selector of a keyframe stop. -/
def stopSelector : Reading (List Bytes) := do
  let token ← current
  if token.kind = .comma ∨ token.kind = .comment then
    advance
    return []
  else if token.isWord Word.fromWord || token.isWord Word.toWord then
    advance
    return [token.literal]
  else if token.kind = .number then return [← numeric]
  else if (token.kind == .dot || token.kind == .plus) && (← startsNumeric) then
    return [← numeric]
  else
    report (.misplaced "keyframe selector")
    advance
    return []

/-- The block of a stop. Without a selector the stop is dropped after its block. -/
def stopBlock (room : Nat) (stops : List Bytes) : Reading (Option KeyframeStop) := do
  reportIf stops.isEmpty (.missing "keyframe selector before '\x7b'")
  let declarations ← declarationBlock room "keyframe selector"
  return if stops.isEmpty then none else declarations.map (KeyframeStop.mk stops)

def keyframeStop (room : Nat) : Reading (Option KeyframeStop) := do
  let stops ← collect Token.isStructural stopSelector
  if ← currentIs .openBrace then stopBlock room stops
  else
    report (.noOpening "keyframe selector")
    return none

def keyframesMember (room : Nat) : Reading (List KeyframeStop) := do
  let token ← current
  if token.kind = .comment ∨ token.kind = .semicolon then
    advance
    return []
  else return (← keyframeStop room).toList

/-- The name of keyframes: an identifier, or the content of a string. -/
def keyframesName (token : Token) : Option Bytes :=
  match token.kind with
  | .ident => some token.literal
  | .string => some (StringLiteral.ofLiteral token.literal).content
  | _ => none

def keyframesBody (room : Nat) : Reading (List KeyframeStop) :=
  blockBody "keyframes block" (keyframesMember room)

def keyframes (room : Nat) (webkit : Bool) : Reading (Option Node) := do
  match keyframesName (← current) with
  | some name => do
    advance
    skipComments
    blockWith "keyframes name" (Node.keyframes name webkit <$> keyframesBody room)
  | none => do
    report (.missingAfter "name" "@keyframes")
    skipBlock
    return none

/-- The further words of a family name without quotes. -/
def familyWords : Reading Bytes := do
  let words ← take (Span.before fun token => token.kind != .ident)
  return words.flatMap fun word => Byte.space :: word.literal

/-- One entry of a list of families, or nothing for a comma or a comment. -/
def family : Reading (List Bytes) := do
  let token ← current
  match token.kind with
  | .string => do
    advance
    return [(StringLiteral.ofLiteral token.literal).content]
  | .ident => do
    advance
    return [token.literal ++ (← familyWords)]
  | _ => do
    advance
    return []

/-- The tokens that a list of families is not made of. -/
def endsFamilies (token : Token) : Bool :=
  token.kind != .comma && token.kind != .comment && token.kind != .string && token.kind != .ident

/-- A block of feature values from its `@` on. -/
def featureBlock (room : Nat) : Reading (Option FeatureBlock) := do
  advance
  let name ← current
  if name.kind = .ident then
    advance
    skipComments
    return (← declarationBlock room "feature value block").map (FeatureBlock.mk name.literal)
  else
    report (.missingAfter "identifier" "'@'")
    skipAtRule
    return none

def featureMember (room : Nat) : Reading (List FeatureBlock) := do
  let token ← current
  match token.kind with
  | .semicolon | .comment => do
    advance
    return []
  | .atSign => return (← featureBlock room).toList
  | _ => do
    report (.misplaced "feature value block")
    advance
    return []

def featureBody (room : Nat) : Reading (List FeatureBlock) :=
  blockBody "feature value block" (featureMember room)

def featureBlocks (room : Nat) (families : List Bytes) : Reading (Option Node) := do
  reportIf families.isEmpty (.missingAfter "font family name" "@font-feature-values")
  advance
  return some (.fontFeatureValues families (← featureBody room))

def fontFeatureValues (room : Nat) : Reading (Option Node) := do
  let families ← collect endsFamilies family
  if ← currentIs .openBrace then featureBlocks room families
  else
    report (.noOpening "font family list")
    skipBlock
    return none

end CssSyntax.Grammar

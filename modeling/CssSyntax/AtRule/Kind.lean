import CssSyntax.Byte

/-! The at-rules with a grammar of their own and the names that they are known by. -/

namespace CssSyntax

inductive AtRule where
  | media
  | keyframes
  | webkitKeyframes
  | importRule
  | charset
  | fontFace
  | fontFeatureValues
  | colorProfile
  | counterStyle
  | container
  | supports
  | layer
  | page
  | namespaceRule
  | viewport
deriving DecidableEq, Repr

namespace AtRule

def all : List AtRule :=
  [media, keyframes, webkitKeyframes, importRule, charset, fontFace, fontFeatureValues,
    colorProfile, counterStyle, container, supports, layer, page, namespaceRule, viewport]

def name : AtRule → String
  | media => "Media"
  | keyframes => "Keyframes"
  | webkitKeyframes => "WebkitKeyframes"
  | importRule => "Import"
  | charset => "Charset"
  | fontFace => "FontFace"
  | fontFeatureValues => "FontFeatureValues"
  | colorProfile => "ColorProfile"
  | counterStyle => "CounterStyle"
  | container => "Container"
  | supports => "Supports"
  | layer => "Layer"
  | page => "Page"
  | namespaceRule => "Namespace"
  | viewport => "Viewport"

def ofName? (text : String) : Option AtRule := all.find? fun rule => rule.name == text

theorem mem_all (rule : AtRule) : rule ∈ all := by
  cases rule <;> decide

/-- The names that stand after `@`, in lower case. -/
def builtins : List (String × AtRule) :=
  [ ("media", media)
  , ("keyframes", keyframes)
  , ("-webkit-keyframes", webkitKeyframes)
  , ("import", importRule)
  , ("charset", charset)
  , ("font-face", fontFace)
  , ("font-feature-values", fontFeatureValues)
  , ("color-profile", colorProfile)
  , ("counter-style", counterStyle)
  , ("container", container)
  , ("supports", supports)
  , ("layer", layer)
  , ("page", page)
  , ("namespace", namespaceRule)
  , ("viewport", viewport)
  , ("-ms-viewport", viewport) ]

/-- The rule that a built-in name stands for, in any case of its letters. -/
def ofBuiltin? (name : Bytes) : Option AtRule :=
  (builtins.find? fun entry => Bytes.sameIgnoringCase (utf8 entry.1) name).map (·.2)

end AtRule

end CssSyntax

import CssSyntax.Byte

/-! The words that the grammar knows. They are met in any case of their letters. -/

namespace CssSyntax.Word

def importantWord : Bytes := utf8 "important"
def notWord : Bytes := utf8 "not"
def onlyWord : Bytes := utf8 "only"
def andWord : Bytes := utf8 "and"
def orWord : Bytes := utf8 "or"
def fromWord : Bytes := utf8 "from"
def toWord : Bytes := utf8 "to"
def urlWord : Bytes := utf8 "url"
def layerWord : Bytes := utf8 "layer"
def supportsWord : Bytes := utf8 "supports"
def deviceCmyk : Bytes := utf8 "device-cmyk"

end CssSyntax.Word

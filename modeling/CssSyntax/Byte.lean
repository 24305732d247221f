/-! Source text is a list of bytes. No encoding is assumed, so a letter is an ASCII letter,
and every byte from 0x80 up may stand in a name: a name written in UTF-8 stays in one piece. -/

namespace CssSyntax

abbrev Bytes := List UInt8

namespace Byte

def newline : UInt8 := 0x0a
def space : UInt8 := 0x20
def doubleQuote : UInt8 := 0x22
def hash : UInt8 := 0x23
def singleQuote : UInt8 := 0x27
def openParen : UInt8 := 0x28
def closeParen : UInt8 := 0x29
def asterisk : UInt8 := 0x2a
def hyphen : UInt8 := 0x2d
def dot : UInt8 := 0x2e
def slash : UInt8 := 0x2f
def backslash : UInt8 := 0x5c

/-- The bytes that separate tokens: space, tab, line feed and carriage return. -/
def isWhiteSpace (byte : UInt8) : Bool :=
  byte == 0x20 || byte == 0x09 || byte == 0x0a || byte == 0x0d

def isDigit (byte : UInt8) : Bool := 0x30 ≤ byte && byte ≤ 0x39

def isUpper (byte : UInt8) : Bool := 0x41 ≤ byte && byte ≤ 0x5a

def isLower (byte : UInt8) : Bool := 0x61 ≤ byte && byte ≤ 0x7a

def isLetter (byte : UInt8) : Bool := isUpper byte || isLower byte

def isHexDigit (byte : UInt8) : Bool :=
  isDigit byte || (0x41 ≤ byte && byte ≤ 0x46) || (0x61 ≤ byte && byte ≤ 0x66)

/-- Letters, `_` and every byte outside ASCII. -/
def isIdentStart (byte : UInt8) : Bool := isLetter byte || byte == 0x5f || 0x80 ≤ byte

def isIdentPart (byte : UInt8) : Bool := isIdentStart byte || isDigit byte || byte == hyphen

def isQuote (byte : UInt8) : Bool := byte == doubleQuote || byte == singleQuote

def lower (byte : UInt8) : UInt8 := if isUpper byte then byte + 0x20 else byte

end Byte

/-- The UTF-8 form of a text. -/
def utf8 (text : String) : Bytes := text.toList.flatMap String.utf8EncodeChar

namespace Bytes

/-- ASCII letters in lower case, all other bytes as they are. -/
def lower (bytes : Bytes) : Bytes := bytes.map Byte.lower

def sameIgnoringCase (left right : Bytes) : Bool := lower left == lower right

end Bytes

end CssSyntax

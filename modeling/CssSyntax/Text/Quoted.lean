import CssSyntax.Text.Printable
import CssSyntax.Text.Utf8

/-! Quoted text: a text between double quotes, on one line, in which a backslash, a double quote
and every character that would not show are written as escapes. -/

namespace CssSyntax.Quoted

/-- The code point in lower-case hex between braces. -/
def codePoint (character : Char) : List Char :=
  ['\\', 'u', '{'] ++ Nat.toDigits 16 character.toNat ++ ['}']

def encodeChar (character : Char) : List Char :=
  if character = Char.ofNat 0 then ['\\', '0']
  else if character = '\t' then ['\\', 't']
  else if character = '\r' then ['\\', 'r']
  else if character = '\n' then ['\\', 'n']
  else if character = '"' then ['\\', '"']
  else if character = '\\' then ['\\', '\\']
  else if isPrintable character then [character]
  else codePoint character

def encode (text : List Char) : List Char := ['"'] ++ text.flatMap encodeChar ++ ['"']

end CssSyntax.Quoted

namespace CssSyntax

/-- Bytes as quoted text. -/
def quoted (bytes : Bytes) : String := String.ofList (Quoted.encode (Utf8.decode bytes))

end CssSyntax

import CssSyntax.Byte
import CssSyntax.Token.Kind

/-! A token is a kind, the bytes it was written with and the place where they start. -/

namespace CssSyntax

/-- A place in the source. Lines and columns count from 1, columns and offsets in bytes. -/
structure Position where
  line : Nat
  column : Nat
  offset : Nat
deriving DecidableEq, Repr

namespace Position

def start : Position := ⟨1, 1, 0⟩

/-- The place after one byte. Only a line feed starts a line. -/
def next (position : Position) (byte : UInt8) : Position :=
  if byte = Byte.newline then ⟨position.line + 1, 1, position.offset + 1⟩
  else ⟨position.line, position.column + 1, position.offset + 1⟩

def after (position : Position) (bytes : Bytes) : Position := bytes.foldl next position

theorem after_append (position : Position) (front back : Bytes) :
    position.after (front ++ back) = (position.after front).after back := by
  simp [after]

theorem offset_next (position : Position) (byte : UInt8) :
    (position.next byte).offset = position.offset + 1 := by
  unfold next
  split <;> rfl

theorem offset_after (position : Position) (bytes : Bytes) :
    (position.after bytes).offset = position.offset + bytes.length := by
  induction bytes generalizing position with
  | nil => rfl
  | cons byte rest ih =>
    have step := ih (position.next byte)
    simp only [after, List.foldl_cons, List.length_cons] at step ⊢
    rw [step, offset_next]
    omega

end Position

structure Token where
  kind : Kind
  /-- The source bytes, delimiters included. -/
  literal : Bytes
  start : Position
deriving DecidableEq, Repr

namespace Token

/-- The end of the input, as a token without bytes. -/
def endOfInput (position : Position) : Token := ⟨.eof, [], position⟩

/-- The offset one past the last byte. -/
def stop (token : Token) : Nat := token.start.offset + token.literal.length

/-- True of an identifier that spells `word` in any case. -/
def isWord (token : Token) (word : Bytes) : Bool :=
  token.kind == .ident && Bytes.sameIgnoringCase token.literal word

/-- True of the tokens that blocks and statements are told apart by: braces, semicolons and the
end of the input. -/
def isStructural (token : Token) : Bool :=
  token.kind == .openBrace || token.kind == .closeBrace || token.kind == .semicolon
    || token.kind == .eof

def isQuotedOrUri (token : Token) : Bool := token.kind == .string || token.kind == .uri

end Token

end CssSyntax

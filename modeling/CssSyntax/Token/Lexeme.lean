import CssSyntax.Token.Basic

/-! Where tokens end. Names, strings, urls and comments are each read by a small automaton over
bytes, and `extent` counts the bytes that an automaton takes. A lexeme is then a count of bytes:
the literal and the rest are the two parts of one list, so scanning loses nothing. -/

namespace CssSyntax

/-- How many bytes the automaton takes before it refuses one or the bytes run out. -/
def extent {σ : Type} (step : σ → UInt8 → Option σ) : σ → Bytes → Nat
  | _, [] => 0
  | state, byte :: rest =>
    match step state byte with
    | none => 0
    | some next => extent step next rest + 1

theorem extent_le {σ : Type} (step : σ → UInt8 → Option σ) (state : σ) (bytes : Bytes) :
    extent step state bytes ≤ bytes.length := by
  induction bytes generalizing state with
  | nil => simp [extent]
  | cons byte rest ih =>
    unfold extent
    split
    · simp
    · next next _ => simpa using ih next

/-- Where a name stands: between its characters, after a backslash, or in an escape that may
take `left` more hex digits. -/
inductive NameState where
  | plain
  | escape
  | hex (left : Nat)

/-- Between the characters of a name. -/
def NameState.plainStep (byte : UInt8) : Option NameState :=
  if byte = Byte.backslash then some .escape
  else if Byte.isIdentPart byte then some .plain
  else none

/-- A backslash escapes up to six hex digits with one space after them, or any single byte but
a line feed. -/
def NameState.step : NameState → UInt8 → Option NameState
  | .plain, byte => plainStep byte
  | .escape, byte =>
    if Byte.isHexDigit byte then some (.hex 5)
    else if byte = Byte.newline then none
    else some .plain
  | .hex left, byte =>
    if Byte.isHexDigit byte && 0 < left then some (.hex (left - 1))
    else if byte = Byte.space then some .plain
    else plainStep byte

/-- Where delimited text stands: inside it, after a backslash, or past its closing delimiter. -/
inductive TextState where
  | inside
  | escape
  | closed

/-- A string ends with its quote, or before a line feed that no backslash precedes. -/
def TextState.stringStep (quote : UInt8) : TextState → UInt8 → Option TextState
  | .inside, byte =>
    if byte = quote then some .closed
    else if byte = Byte.newline then none
    else if byte = Byte.backslash then some .escape
    else some .inside
  | .escape, _ => some .inside
  | .closed, _ => none

/-- An unquoted url ends with the first `)` that no backslash precedes. -/
def TextState.urlStep : TextState → UInt8 → Option TextState
  | .inside, byte =>
    if byte = Byte.closeParen then some .closed
    else if byte = Byte.backslash then some .escape
    else some .inside
  | .escape, _ => some .inside
  | .closed, _ => none

/-- Where a comment stands after its opening: inside, after an asterisk, or past its end. -/
inductive CommentState where
  | inside
  | asterisk
  | closed

def CommentState.step : CommentState → UInt8 → Option CommentState
  | .inside, byte => if byte = Byte.asterisk then some .asterisk else some .inside
  | .asterisk, byte =>
    if byte = Byte.slash then some .closed
    else if byte = Byte.asterisk then some .asterisk
    else some .inside
  | .closed, _ => none

def nameExtent (bytes : Bytes) : Nat := extent NameState.step .plain bytes

def digitsExtent (bytes : Bytes) : Nat := (bytes.takeWhile Byte.isDigit).length

/-- A point belongs to the number only with a digit after it. -/
def fractionExtent : Bytes → Nat
  | point :: digit :: rest =>
    if point = Byte.dot ∧ Byte.isDigit digit then digitsExtent (digit :: rest) + 1 else 0
  | _ => 0

def numberExtent (bytes : Bytes) : Nat :=
  digitsExtent bytes + fractionExtent (bytes.drop (digitsExtent bytes))

/-- What a token is, and how many bytes it takes after its first. -/
structure Lexeme where
  kind : Kind
  extra : Nat

namespace Lexeme

/-- After `#`: exactly three or six hex digits make a color, unless the name goes on. -/
def ofHash (rest : Bytes) : Lexeme :=
  let digits := ((rest.take 6).takeWhile Byte.isHexDigit).length
  let ends := !(rest.drop digits).head?.any Byte.isIdentPart
  if (digits = 3 ∨ digits = 6) ∧ ends then ⟨.color, digits⟩ else ⟨.hash, 0⟩

/-- After `-`: a name that starts with one or two hyphens, a number, or a minus sign. -/
def ofHyphen : Bytes → Lexeme
  | [] => ⟨.minus, 0⟩
  | byte :: rest =>
    if byte = Byte.hyphen then ⟨.ident, nameExtent rest + 1⟩
    else if Byte.isDigit byte then ⟨.number, numberExtent (byte :: rest)⟩
    else if Byte.isIdentStart byte ∨ byte = Byte.backslash then ⟨.ident, nameExtent (byte :: rest)⟩
    else ⟨.minus, 0⟩

def ofSlash (rest : Bytes) : Lexeme :=
  if rest.head? = some Byte.asterisk then
    ⟨.comment, extent CommentState.step .inside rest.tail + 1⟩
  else ⟨.divide, 0⟩

/-- True of the bytes after `url` if they open a url without quotes. -/
def opensUrl (bytes : Bytes) : Bool :=
  bytes.head? == some Byte.openParen &&
    !((bytes.tail.dropWhile Byte.isWhiteSpace).head?.any Byte.isQuote)

/-- A name, or the whole of `url(...)` when the name is `url` and no quote follows the
parenthesis. -/
def ofWord (first : UInt8) (rest : Bytes) : Lexeme :=
  let name := nameExtent rest
  let after := rest.drop name
  if Bytes.sameIgnoringCase (first :: rest.take name) (utf8 "url") && opensUrl after then
    ⟨.uri, name + 1 + extent TextState.urlStep .inside after.tail⟩
  else ⟨.ident, name⟩

def ofColon (rest : Bytes) : Lexeme :=
  if rest.head? = some 0x3a then ⟨.doubleColon, 1⟩ else ⟨.colon, 0⟩

def ofCaret (rest : Bytes) : Lexeme :=
  if rest.head? = some 0x3d then ⟨.startsWith, 1⟩ else ⟨.illegal, 0⟩

/-- The token that starts with `first`. -/
def ofFirst (first : UInt8) (rest : Bytes) : Lexeme :=
  match Kind.ofPunctuation? first with
  | some kind => ⟨kind, 0⟩
  | none =>
    if first = 0x5e then ofCaret rest
    else if first = 0x3a then ofColon rest
    else if first = Byte.hash then ofHash rest
    else if first = Byte.hyphen then ofHyphen rest
    else if first = Byte.backslash then ⟨.ident, extent NameState.step .escape rest⟩
    else if first = Byte.slash then ofSlash rest
    else if Byte.isQuote first then ⟨.string, extent (TextState.stringStep first) .inside rest⟩
    else if Byte.isIdentStart first then ofWord first rest
    else if Byte.isDigit first then ⟨.number, numberExtent rest⟩
    else ⟨.illegal, 0⟩

end Lexeme

end CssSyntax

/-! The kinds of token. Punctuation has one kind for each byte, apart from the pairs `^=` and
`::`, and the end of the input is a kind of its own. -/

namespace CssSyntax

inductive Kind where
  | ident
  | number
  | string
  | color
  | uri
  | comment
  | illegal
  | eof
  | hash
  | semicolon
  | colon
  | doubleColon
  | comma
  | openParen
  | closeParen
  | openBrace
  | closeBrace
  | openBracket
  | closeBracket
  | equals
  | plus
  | minus
  | greater
  | tilde
  | pipe
  | percentage
  | dollar
  | exclamation
  | atSign
  | asterisk
  | dot
  | divide
  | startsWith
deriving DecidableEq, Repr

namespace Kind

def all : List Kind :=
  [ident, number, string, color, uri, comment, illegal, eof, hash, semicolon, colon,
    doubleColon, comma, openParen, closeParen, openBrace, closeBrace, openBracket, closeBracket,
    equals, plus, minus, greater, tilde, pipe, percentage, dollar, exclamation, atSign, asterisk,
    dot, divide, startsWith]

def name : Kind → String
  | ident => "IDENT"
  | number => "NUMBER"
  | string => "STRING"
  | color => "COLOR"
  | uri => "URI"
  | comment => "COMMENT"
  | illegal => "ILLEGAL"
  | eof => "EOF"
  | hash => "HASH"
  | semicolon => "SEMICOLON"
  | colon => "COLON"
  | doubleColon => "DBLCOLON"
  | comma => "COMMA"
  | openParen => "LPAREN"
  | closeParen => "RPAREN"
  | openBrace => "LBRACE"
  | closeBrace => "RBRACE"
  | openBracket => "LBRACKET"
  | closeBracket => "RBRACKET"
  | equals => "EQUALS"
  | plus => "PLUS"
  | minus => "MINUS"
  | greater => "GREATER"
  | tilde => "TILDE"
  | pipe => "PIPE"
  | percentage => "PERCENTAGE"
  | dollar => "DOLLAR"
  | exclamation => "EXCLAMATION"
  | atSign => "AT"
  | asterisk => "ASTERISK"
  | dot => "DOT"
  | divide => "DIVIDE"
  | startsWith => "STARTS_WITH"

def ofName? (text : String) : Option Kind := all.find? fun kind => kind.name == text

theorem mem_all (kind : Kind) : kind ∈ all := by
  cases kind <;> decide

/-- The punctuation that a byte stands for whatever follows it. -/
def ofPunctuation? (byte : UInt8) : Option Kind :=
  match Char.ofUInt8 byte with
  | ';' => some semicolon
  | ',' => some comma
  | '(' => some openParen
  | ')' => some closeParen
  | '{' => some openBrace
  | '}' => some closeBrace
  | '[' => some openBracket
  | ']' => some closeBracket
  | '=' => some equals
  | '+' => some plus
  | '>' => some greater
  | '~' => some tilde
  | '|' => some pipe
  | '%' => some percentage
  | '$' => some dollar
  | '!' => some exclamation
  | '@' => some atSign
  | '*' => some asterisk
  | '.' => some dot
  | _ => none

end Kind

end CssSyntax

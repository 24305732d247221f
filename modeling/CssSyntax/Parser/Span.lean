import CssSyntax.Parser.Reading

/-! How far a stretch of tokens reaches. Recovery drops such a stretch whole, and text that is
kept as written is such a stretch. None reaches past the end of the input. -/

namespace CssSyntax.Span

/-- The tokens before the first in `stop`. -/
def before (stop : Token → Bool) (tokens : List Token) : Nat :=
  (tokens.takeWhile fun token => !stop token).length

def comments (tokens : List Token) : Nat := before (fun token => token.kind != .comment) tokens

/-- The rest of a block with its closing brace. Blocks opened on the way are part of it. -/
def block (opened : Nat) : List Token → Nat
  | [] => 0
  | token :: rest =>
    match token.kind with
    | .eof => 0
    | .openBrace => block (opened + 1) rest + 1
    | .closeBrace => if opened ≤ 1 then 1 else block (opened - 1) rest + 1
    | _ => block opened rest + 1

/-- The rest of a declaration: its semicolon is part of it, a closing brace is not. -/
def declaration : List Token → Nat
  | [] => 0
  | token :: rest =>
    match token.kind with
    | .eof => 0
    | .closeBrace => 0
    | .semicolon => 1
    | _ => declaration rest + 1

/-- The tokens before the `)` of the current group, or before a structural one. Outside inner
groups a token in `stop` ends the stretch too. -/
def inside (stop : Token → Bool) (opened : Nat) : List Token → Nat
  | [] => 0
  | token :: rest =>
    if token.isStructural then 0
    else if opened = 0 && stop token then 0
    else
      match token.kind with
      | .openParen => inside stop (opened + 1) rest + 1
      | .closeParen => if opened = 0 then 0 else inside stop (opened - 1) rest + 1
      | _ => inside stop opened rest + 1

/-- The rest of a group with its `)`. A group never goes past a structural token. -/
def group (opened : Nat) : List Token → Nat
  | [] => 0
  | token :: rest =>
    if token.isStructural then 0
    else
      match token.kind with
      | .openParen => group (opened + 1) rest + 1
      | .closeParen => if opened = 0 then 1 else group (opened - 1) rest + 1
      | _ => group opened rest + 1

/-- An at-rule of unknown grammar: a statement with its semicolon, or a block with its closing
brace. A closing brace of the block around it is not part of it. -/
def atRule (opened : Nat) : List Token → Nat
  | [] => 0
  | token :: rest =>
    match token.kind with
    | .eof => 0
    | .semicolon => if opened = 0 then 1 else atRule opened rest + 1
    | .openBrace => atRule (opened + 1) rest + 1
    | .closeBrace =>
      if opened = 0 then 0
      else if opened = 1 then 1
      else atRule (opened - 1) rest + 1
    | _ => atRule opened rest + 1

end CssSyntax.Span

namespace CssSyntax.Reading

def skipComments : Reading Unit := skip Span.comments

def skipBlock : Reading Unit := skip (Span.block 0)

def skipDeclaration : Reading Unit := skip Span.declaration

def skipGroup : Reading Unit := skip (Span.group 0)

def skipAtRule : Reading Unit := skip (Span.atRule 0)

end CssSyntax.Reading

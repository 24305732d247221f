import CssSyntax.Token.Basic

/-! Text kept as written: the literals of a run of tokens, with one space where the source had a
gap. Comments count as a gap and leave nothing else behind. -/

namespace CssSyntax.Verbatim

def gap (left right : Token) : Bytes := if left.stop = right.start.offset then [] else [Byte.space]

def join : List Token → Bytes
  | [] => []
  | [token] => token.literal
  | left :: right :: rest => left.literal ++ gap left right ++ join (right :: rest)

def kept (tokens : List Token) : List Token := tokens.filter fun token => token.kind != .comment

end CssSyntax.Verbatim

namespace CssSyntax

def verbatim (tokens : List Token) : Bytes := Verbatim.join (Verbatim.kept tokens)

end CssSyntax

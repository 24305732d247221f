import CssSyntax.Token.Basic

/-! What a parse complains of. A problem says what is wrong, a diagnostic where: at the token
that the parser met. -/

namespace CssSyntax

/-- Something required is missing, something does not fit, or an at-rule has no grammar. -/
inductive Fault where
  | expected
  | unexpected
  | unsupported
deriving DecidableEq, Repr

namespace Fault

def all : List Fault := [expected, unexpected, unsupported]

def code : Fault → String
  | expected => "css-expected"
  | unexpected => "css-unexpected"
  | unsupported => "css-unsupported-at-rule"

end Fault

structure Problem where
  fault : Fault
  message : String
deriving DecidableEq, Repr

namespace Problem

def missing (item : String) : Problem := ⟨.expected, "Expected " ++ item⟩

def missingAfter (item place : String) : Problem := missing (item ++ " after " ++ place)

/-- The `{` of a block is missing. -/
def noOpening (place : String) : Problem := missingAfter "'\x7b'" place

/-- The `}` of a block is missing. -/
def noClosing (place : String) : Problem := missingAfter "'\x7d'" place

def noPropertyName : Problem := missing "property name"

def noValue : Problem := missingAfter "value" "':'"

def misplaced (place : String) : Problem := ⟨.unexpected, "Unexpected token in " ++ place⟩

def misplacedAtTop : Problem := ⟨.unexpected, "Unexpected token at stylesheet level"⟩

def unknownAtRule : Problem := ⟨.unsupported, "Unsupported at-rule"⟩

end Problem

structure Diagnostic where
  problem : Problem
  line : Nat
  column : Nat
  token : Kind
deriving DecidableEq, Repr

namespace Diagnostic

def ofToken (problem : Problem) (token : Token) : Diagnostic :=
  ⟨problem, token.start.line, token.start.column, token.kind⟩

/-- The place and the message. -/
def text (diagnostic : Diagnostic) : String :=
  toString diagnostic.line ++ ":" ++ toString diagnostic.column ++ ": "
    ++ diagnostic.problem.message

/-- The line that stands for the diagnostic below the outline of a tree. -/
def summary (diagnostic : Diagnostic) : String :=
  "error " ++ diagnostic.problem.fault.code ++ ": " ++ diagnostic.text
    ++ " (" ++ diagnostic.token.name ++ ")"

end Diagnostic

end CssSyntax

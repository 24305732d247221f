import CssSyntax.AtRule.Registry
import CssSyntax.Diagnostic

/-! What a parser knows between two steps: its settings, the tokens ahead, the place where they
end and the diagnostics so far. The token that marks the end is not in the list, so a parser can
look past the last token as far as it likes and never runs over it. -/

namespace CssSyntax

/-- What a parse is set to do. Past `maxErrors` diagnostics no more are recorded, and the parse
goes on. -/
structure Settings where
  registry : Registry
  keepComments : Bool
  maxErrors : Option Nat

def Settings.standard : Settings := ⟨.builtin, true, none⟩

structure Parser where
  settings : Settings
  ahead : List Token
  finish : Position
  errors : List Diagnostic

namespace Parser

/-- A parser before the first token. Tokens without an end mark end after the last of them. -/
def ofTokens (settings : Settings) (tokens : List Token) : Parser :=
  match tokens.getLast? with
  | none => ⟨settings, [], .start, []⟩
  | some last =>
    if last.kind = .eof then ⟨settings, tokens.dropLast, last.start, []⟩
    else
      let finish := ⟨last.start.line, last.start.column + last.literal.length, last.stop⟩
      ⟨settings, tokens, finish, []⟩

/-- The token `count` places ahead, or the end of the input. -/
def nth (parser : Parser) (count : Nat) : Token :=
  (parser.ahead[count]?).getD (Token.endOfInput parser.finish)

def current (parser : Parser) : Token := parser.nth 0

def next (parser : Parser) : Token := parser.nth 1

def currentIs (parser : Parser) (kind : Kind) : Bool := parser.current.kind == kind

def nextIs (parser : Parser) (kind : Kind) : Bool := parser.next.kind == kind

/-- True if the token `count` places ahead starts right where the one before it stops. -/
def isAdjacent (parser : Parser) (count : Nat) : Bool :=
  0 < count && (parser.nth count).kind != .eof &&
    (parser.nth (count - 1)).stop == (parser.nth count).start.offset

def atEnd (parser : Parser) : Bool := parser.currentIs .eof

/-- True if a `{` comes before the next `;` or `}`: what is ahead opens a block. -/
def blockFollows (parser : Parser) : Bool :=
  (parser.ahead.find? Token.isStructural).any fun token => token.kind == .openBrace

def skip (parser : Parser) (count : Nat) : Parser :=
  { parser with ahead := parser.ahead.drop count }

def isFull (parser : Parser) : Bool :=
  parser.settings.maxErrors.any fun limit => limit ≤ parser.errors.length

def record (parser : Parser) (problem : Problem) (token : Token) : Parser :=
  if parser.isFull then parser
  else { parser with errors := parser.errors ++ [Diagnostic.ofToken problem token] }

end Parser

/-- Diagnostics and those found after them, as many as the limit allows. -/
def capped (limit : Option Nat) (errors found : List Diagnostic) : List Diagnostic :=
  match limit with
  | none => errors ++ found
  | some count => errors ++ found.take (count - errors.length)

theorem capped_nil (limit : Option Nat) (errors : List Diagnostic) :
    capped limit errors [] = errors := by
  cases limit <;> simp [capped]

theorem capped_append (limit : Option Nat) (errors first second : List Diagnostic) :
    capped limit (capped limit errors first) second = capped limit errors (first ++ second) := by
  cases limit with
  | none => simp [capped]
  | some count =>
    have room : count - (errors.length + min (count - errors.length) first.length) =
        count - errors.length - first.length := by omega
    simp only [capped, List.take_append, List.append_assoc, List.length_append, List.length_take,
      room]

namespace Parser

/-- The same place in the tokens with other diagnostics so far, and another limit to them. -/
def withErrors (parser : Parser) (limit : Option Nat) (errors : List Diagnostic) : Parser :=
  { parser with settings := { parser.settings with maxErrors := limit }, errors }

/-- The parser `count` tokens further on, with the diagnostics found on the way. -/
def step (parser : Parser) (count : Nat) (found : List Diagnostic) : Parser :=
  { parser.skip count with errors := capped parser.settings.maxErrors parser.errors found }

theorem withErrors_self (parser : Parser) :
    parser.withErrors parser.settings.maxErrors parser.errors = parser := rfl

theorem withErrors_step (parser : Parser) (limit : Option Nat) (errors : List Diagnostic)
    (count : Nat) (found : List Diagnostic) :
    (parser.withErrors limit errors).step count found =
      (parser.step count found).withErrors limit (capped limit errors found) := rfl

theorem step_skip (parser : Parser) (count : Nat) : parser.step count [] = parser.skip count := by
  simp [step, skip, capped_nil]

theorem step_step (parser : Parser) (first second : Nat) (found more : List Diagnostic) :
    (parser.step first found).step second more = parser.step (first + second) (found ++ more) := by
  simp [step, skip, capped_append]

theorem record_eq_step (parser : Parser) (problem : Problem) (token : Token) :
    parser.record problem token = parser.step 0 [Diagnostic.ofToken problem token] := by
  unfold record isFull step skip capped
  cases parser.settings.maxErrors with
  | none => simp
  | some limit =>
    by_cases full : limit ≤ parser.errors.length
    · have none : limit - parser.errors.length = 0 := by omega
      simp [full, none]
    · obtain ⟨room, some⟩ : ∃ room, limit - parser.errors.length = room + 1 :=
        ⟨limit - parser.errors.length - 1, by omega⟩
      simp [full, some]

end Parser

end CssSyntax

import CssSyntax.Grammar.Unit
import CssSyntax.Parser.Span
import CssSyntax.Syntax.Value

/-! Reading values. A number takes its sign and its unit, a hash the name after it, and a group
in parentheses is read like the arguments of a call. `room` counts the groups that may still open
inside: without room the group is dropped and stays empty. -/

namespace CssSyntax

/-- White space as it is trimmed from a url: form feeds too. -/
def Byte.isTrimmed (byte : UInt8) : Bool := Byte.isWhiteSpace byte || byte == 0x0c

def Bytes.trim (bytes : Bytes) : Bytes :=
  ((bytes.dropWhile Byte.isTrimmed).reverse.dropWhile Byte.isTrimmed).reverse

namespace Value

/-- The text between the parentheses of an unquoted url, as one argument. -/
def uriContent (inner : Bytes) : Value :=
  if inner.head?.any Byte.isQuote then .string (StringLiteral.ofLiteral inner) else .basic inner

/-- An unquoted url gives the same tree as a call with one argument. -/
def ofUri (literal : Bytes) : Value :=
  let rest := literal.drop 3
  let inner := if rest.head? = some Byte.openParen then rest.tail else rest
  let inner := if inner.getLast? = some Byte.closeParen then inner.dropLast else inner
  .function (literal.take 3) [uriContent (Bytes.trim inner)]

end Value

namespace Parser

def isSign (token : Token) : Bool := token.kind == .minus || token.kind == .plus

/-- True before a sign or a point, or both, directly followed by a number. -/
def startsNumeric (parser : Parser) : Bool :=
  let signs := if isSign parser.current then 1 else 0
  if signs = 1 && !parser.isAdjacent 1 then false
  else if (parser.nth signs).kind == .dot then
    parser.isAdjacent (signs + 1) && (parser.nth (signs + 1)).kind == .number
  else signs = 1 && (parser.nth signs).kind == .number

/-- True if a unit stands right after the current token. -/
def unitFollows (parser : Parser) : Bool :=
  parser.isAdjacent 1 &&
    (parser.nextIs .percentage || (parser.nextIs .ident && isUnit parser.next.literal))

end Parser

namespace Span

/-- The signs and points before a number. -/
def marks (tokens : List Token) : Nat :=
  before (fun token => !(Parser.isSign token || token.kind == .dot)) tokens

/-- The names and numbers that follow without a gap from `stop` on. -/
def glued (stop : Nat) : List Token → Nat
  | [] => 0
  | token :: rest =>
    if token.start.offset = stop ∧ (token.kind = .ident ∨ token.kind = .number) then
      glued token.stop rest + 1
    else 0

end Span

namespace Grammar

open Reading

def startsNumeric : Reading Bool := peek Parser.startsNumeric

def literals (tokens : List Token) : Bytes := tokens.flatMap (·.literal)

/-- A unit right after the number is part of it. -/
def numberWithUnit (number : Token) : Reading Bytes := do
  if ← peek Parser.unitFollows then
    advance
    let unit ← current
    advance
    return number.literal ++ unit.literal
  else
    advance
    return number.literal

/-- A number with the signs and points before it and the unit after it. -/
def numeric : Reading Bytes := do
  let marks ← take Span.marks
  let number ← current
  if number.kind = .number then return literals marks ++ (← numberWithUnit number)
  else return literals marks

/-- `#` with the names and numbers that follow without a gap. -/
def hashValue : Reading Value := do
  let hash ← current
  advance
  let rest ← take (Span.glued hash.stop)
  return .basic (hash.literal ++ literals rest)

/-- The current token, given what it means as a value. -/
def tokenValue (meaning : Bytes → Value) : Reading Value := do
  let token ← current
  advance
  return meaning token.literal

def plainValue : Reading Value := tokenValue .basic

/-- A call, from its name on. -/
def callWith (arguments : Reading (List Value)) : Reading Value := do
  let name ← current
  advance
  advance
  return .function name.literal (← arguments)

/-- A sign or a point: part of a number if one follows, else a value of its own. -/
def markValue : Reading Value := do
  if ← startsNumeric then return .basic (← numeric) else plainValue

/-- A name: of a call if a parenthesis follows, else a value of its own. -/
def nameValue (arguments : Reading (List Value)) : Reading Value := do
  if ← nextIs .openParen then callWith arguments else plainValue

/-- A group in parentheses, read like the arguments of a call without a name. -/
def groupValue (arguments : Reading (List Value)) : Reading Value := do
  advance
  return .function [] (← arguments)

/-- A token that no value holds is dropped. -/
def droppedValue : Reading (Option Value) := do
  report (.misplaced "declaration value")
  advance
  return none

/-- One value. None if the token was dropped. -/
def valueWith (arguments : Reading (List Value)) : Reading (Option Value) := do
  let token ← current
  match token.kind with
  | .number => some <$> Value.basic <$> numeric
  | .minus | .plus | .dot => some <$> markValue
  | .ident => some <$> nameValue arguments
  | .uri => some <$> tokenValue Value.ofUri
  | .string => some <$> tokenValue fun literal => .string (.ofLiteral literal)
  | .openParen => some <$> groupValue arguments
  | .hash => some <$> hashValue
  | .illegal | .openBrace | .exclamation => droppedValue
  | .eof => return none
  | _ => some <$> plainValue

def endsArguments (token : Token) : Bool :=
  token.kind == .closeParen || token.kind == .eof || token.kind == .semicolon
    || token.kind == .closeBrace

/-- A value between separators: commas and comments yield nothing. -/
def separatedValue (value : Reading (Option Value)) : Reading (List Value) := do
  let token ← current
  if token.kind = .comma ∨ token.kind = .comment then
    advance
    return []
  else return (← value).toList

/-- The `)` of a call, or what is wrong in its place. -/
def closeArguments : Reading Unit := do
  let token ← current
  if token.kind = .closeParen then advance
  else if token.kind = .eof then report (.missingAfter "')'" "function arguments")
  else report (.misplaced "function")

def argumentsWith (value : Reading (Option Value)) : Reading (List Value) := do
  let args ← collect endsArguments (separatedValue value)
  closeArguments
  return args

def refusedArguments : Reading (List Value) := do
  report (.misplaced "function")
  skipGroup
  return []

/-- The arguments of a call, from after the `(` to after the `)`. -/
def arguments : Nat → Reading (List Value)
  | 0 => refusedArguments
  | room + 1 => argumentsWith (valueWith (later fun _ => arguments room))

def value (room : Nat) : Reading (Option Value) := valueWith (arguments room)

def call (room : Nat) : Reading Value := callWith (arguments room)

end Grammar

end CssSyntax

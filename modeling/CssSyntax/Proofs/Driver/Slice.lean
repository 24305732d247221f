import CssSyntax.Grammar.Value

/-! Bytes cut out of the literal of a url. Each cut is checked to be within bounds, and none of them
ever is not. -/

namespace CssSyntax

namespace Bytes

/-- The bytes from `start` to before `stop`. -/
def slice? (bytes : Bytes) (start stop : Nat) : Option Bytes :=
  if start ≤ stop ∧ stop ≤ bytes.length then some ((bytes.take stop).drop start) else none

/-- The first bytes and those behind them. -/
def split? (bytes : Bytes) (count : Nat) : Option (Bytes × Bytes) :=
  if count ≤ bytes.length then some (bytes.splitAt count) else none

def isInk (byte : UInt8) : Bool := !Byte.isTrimmed byte

/-- From the first byte that is no white space to the last. -/
def trim? (bytes : Bytes) : Option Bytes :=
  let start := bytes.findIdx isInk
  let stop := if bytes.any isInk then bytes.length - bytes.reverse.findIdx isInk else start
  bytes.slice? start stop

theorem dropWhile_isTrimmed (bytes : Bytes) :
    bytes.dropWhile Byte.isTrimmed = bytes.drop (bytes.findIdx isInk) :=
  List.dropWhile_eq_drop_findIdx_not

theorem trim_eq_drop (bytes : Bytes) :
    bytes.trim = ((bytes.drop (bytes.findIdx isInk)).reverse.drop
      ((bytes.drop (bytes.findIdx isInk)).reverse.findIdx isInk)).reverse := by
  rw [trim, dropWhile_isTrimmed, dropWhile_isTrimmed]

theorem trim?_eq (bytes : Bytes) : bytes.trim? = some bytes.trim := by
  rw [trim_eq_drop]
  unfold trim?
  cases some : bytes.any isInk with
  | false =>
    have start : bytes.findIdx isInk = bytes.length :=
      List.findIdx_eq_length.2 fun byte member => by
        simpa using List.any_eq_false.1 some byte member
    simp [start, slice?]
  | true =>
    generalize place : bytes.findIdx isInk = start
    have front : start < bytes.length := by
      rw [← place, List.findIdx_lt_length]
      exact List.any_eq_true.1 some
    have ink : isInk bytes[start] = true := by
      subst place
      exact List.findIdx_getElem
    have member : bytes[start] ∈ (bytes.drop start).reverse := by
      rw [List.mem_reverse, List.drop_eq_getElem_cons front]
      exact List.mem_cons_self
    have behind : (bytes.drop start).reverse.findIdx isInk < (bytes.drop start).reverse.length :=
      List.findIdx_lt_length.2 ⟨_, member, ink⟩
    have whole : bytes.reverse.findIdx isInk = (bytes.drop start).reverse.findIdx isInk := by
      have parts : bytes.reverse = (bytes.drop start).reverse ++ (bytes.take start).reverse := by
        rw [← List.reverse_append, List.take_append_drop]
      rw [parts, List.findIdx_append, if_pos behind]
    generalize (bytes.drop start).reverse.findIdx isInk = back at behind whole
    rw [List.length_reverse, List.length_drop] at behind
    have bounds : start ≤ bytes.length - back ∧ bytes.length - back ≤ bytes.length := by omega
    have count : bytes.length - start - back = bytes.length - back - start := by omega
    simp only [whole, if_true, slice?, if_pos bounds]
    rw [List.reverse_drop, List.reverse_reverse, List.length_reverse, List.length_drop, count,
      List.drop_take]

end Bytes

/-- A url of a token, cut out of its literal step by step. -/
def Value.ofUri? (literal : Bytes) : Option Value := do
  let (name, rest) ← Bytes.split? literal (min literal.length 3)
  let inner := if rest.head? = some Byte.openParen then rest.tail else rest
  let inner := if inner.getLast? = some Byte.closeParen then inner.dropLast else inner
  return .function name [Value.uriContent (← Bytes.trim? inner)]

theorem Value.ofUri?_eq (literal : Bytes) : Value.ofUri? literal = some (Value.ofUri literal) := by
  have name : literal.take (min literal.length 3) = literal.take 3 :=
    List.take_eq_take_iff.2 (by omega)
  have rest : literal.drop (min literal.length 3) = literal.drop 3 := by
    rcases Nat.le_total literal.length 3 with short | long
    · rw [Nat.min_eq_left short, List.drop_length, List.drop_eq_nil_of_le short]
    · rw [Nat.min_eq_right long]
  simp only [ofUri?, Bytes.split?, Nat.min_le_left, if_true, Option.bind_eq_bind, Option.bind_some,
    List.splitAt_eq, name, rest, Bytes.trim?_eq]
  rfl

end CssSyntax

import CssSyntax.Byte

/-! Reading bytes as UTF-8. Bytes that are no UTF-8 become U+FFFD, one for each longest piece
that could still have started a character: a character cut short gives one, a byte that can
start no character gives one of its own. -/

namespace CssSyntax.Utf8

/-- A character read in part: how many bytes it still needs, the range that the next of them is
in, and the value so far. -/
structure Pending where
  left : Nat
  low : UInt8
  high : UInt8
  value : Nat

def replacement : Char := Char.ofNat 0xfffd

def tailLow : UInt8 := 0x80
def tailHigh : UInt8 := 0xbf

/-- What a lead byte announces. The range of the second byte leaves out the overlong forms, the
surrogates and all past U+10FFFF. -/
def ofLead? (byte : UInt8) : Option Pending :=
  if byte < 0xc2 then none
  else if byte < 0xe0 then some ⟨1, tailLow, tailHigh, byte.toNat - 0xc0⟩
  else if byte = 0xe0 then some ⟨2, 0xa0, tailHigh, 0⟩
  else if byte = 0xed then some ⟨2, tailLow, 0x9f, 0xd⟩
  else if byte < 0xf0 then some ⟨2, tailLow, tailHigh, byte.toNat - 0xe0⟩
  else if byte = 0xf0 then some ⟨3, 0x90, tailHigh, 0⟩
  else if byte < 0xf4 then some ⟨3, tailLow, tailHigh, byte.toNat - 0xf0⟩
  else if byte = 0xf4 then some ⟨3, tailLow, 0x8f, 4⟩
  else none

/-- The first byte of a character: what it shows at once, and what is still to come. -/
def first (byte : UInt8) : List Char × Option Pending :=
  if byte < 0x80 then ([Char.ofNat byte.toNat], none)
  else
    match ofLead? byte with
    | none => ([replacement], none)
    | some pending => ([], some pending)

def Pending.take (pending : Pending) (byte : UInt8) : List Char × Option Pending :=
  let value := pending.value * 64 + (byte.toNat - 0x80)
  if pending.left ≤ 1 then ([Char.ofNat value], none)
  else ([], some ⟨pending.left - 1, tailLow, tailHigh, value⟩)

def step : Option Pending → UInt8 → List Char × Option Pending
  | none, byte => first byte
  | some pending, byte =>
    if pending.low ≤ byte ∧ byte ≤ pending.high then pending.take byte
    else (replacement :: (first byte).1, (first byte).2)

def decodeFrom : Option Pending → Bytes → List Char
  | none, [] => []
  | some _, [] => [replacement]
  | pending, byte :: rest => (step pending byte).1 ++ decodeFrom (step pending byte).2 rest

def decode (bytes : Bytes) : List Char := decodeFrom none bytes

end CssSyntax.Utf8

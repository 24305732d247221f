import CssSyntax.Report

/-! Sources that deliver their bytes in pieces and may fail. -/

namespace CssSyntax

/-- The deliveries of a source up to its end, or up to where it fails. -/
inductive Source where
  | finished
  | failed
  | piece (bytes : Bytes) (rest : Source)

namespace Source

/-- All bytes of a source that does not fail. -/
def read : Source → Except Failure Bytes
  | finished => .ok []
  | failed => .error .unreadable
  | piece bytes rest => rest.read.map (bytes ++ ·)

/-- The deliveries from `position` on: at most `size` bytes at a time, and a failure once more is
asked for at `failure` or later. -/
def deliver (size : Nat) (failure : Option Nat) (position : Nat) (bytes : Bytes) : Source :=
  if failure.any fun limit => limit ≤ position then failed
  else if bytes.length = 0 ∨ size = 0 then finished
  else
    piece (bytes.take size)
      (deliver size failure (position + (bytes.take size).length) (bytes.drop size))
termination_by bytes.length
decreasing_by
  simp only [List.length_drop]
  omega

def ofBytes (size : Nat) (failure : Option Nat) (bytes : Bytes) : Source :=
  deliver size failure 0 bytes

/-- Parses what a source delivers. -/
def report (source : Source) (options : Options) : Except Failure Report :=
  source.read.map (Report.ofSource options)

end Source

end CssSyntax

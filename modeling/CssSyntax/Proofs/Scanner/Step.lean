import CssSyntax.Proofs.Driver.Slice
import CssSyntax.Proofs.Token.Located
import Mathlib.Algebra.Group.Nat.Defs

/-! A source as a machine reads it: byte by byte, with counters of 32 bits for the line and the
column of the next byte. A counter that would overflow, a cut outside of the source and a loop that
would stand still give nothing. In a source that the counters can count none of this happens. -/

namespace CssSyntax

/-- The next number, if 32 bits hold it. -/
def succ32? (counter : UInt32) : Option UInt32 :=
  if counter.toNat + 1 < 2 ^ 32 then some (counter + 1) else none

theorem toNat_ofNat32 {count : Nat} (fits : count < 2 ^ 32) : (UInt32.ofNat count).toNat = count :=
  UInt32.toNat_ofNat_of_lt' fits

theorem succ32?_ofNat {count : Nat} (fits : count + 1 < 2 ^ 32) :
    succ32? (UInt32.ofNat count) = some (UInt32.ofNat (count + 1)) := by
  rw [succ32?, toNat_ofNat32 (by omega), if_pos fits, UInt32.ofNat_add]
  rfl

/-- The line and the column are those of the next byte. -/
structure Scanner where
  source : Bytes
  offset : Nat
  line : UInt32
  column : UInt32

namespace Scanner

/-- What a scanner goes back to when it gives up what it tried. -/
structure Snapshot where
  offset : Nat
  line : UInt32
  column : UInt32

def ofBytes (source : Bytes) : Scanner := ⟨source, 0, 1, 1⟩

/-- The byte `distance` places ahead, or 0 if the source is over there. A source may hold 0 too. -/
def nth (scanner : Scanner) (distance : Nat) : UInt8 :=
  (scanner.source[scanner.offset + distance]?).getD 0

def isEnd (scanner : Scanner) : Bool := scanner.source.length ≤ scanner.offset

/-- How many bytes are left. -/
def left (scanner : Scanner) : Nat := scanner.source.length - scanner.offset

def snapshot (scanner : Scanner) : Snapshot := ⟨scanner.offset, scanner.line, scanner.column⟩

def restore (scanner : Scanner) (snapshot : Snapshot) : Scanner :=
  ⟨scanner.source, snapshot.offset, snapshot.line, snapshot.column⟩

def place (scanner : Scanner) : Position :=
  ⟨scanner.line.toNat, scanner.column.toNat, scanner.offset⟩

/-- The bytes that were taken since the scanner was at `start`. -/
def since? (scanner : Scanner) (start : Nat) : Option Bytes :=
  scanner.source.slice? start scanner.offset

/-- Takes one byte. At the end there is none to take. -/
def bump? (scanner : Scanner) : Option Scanner :=
  match scanner.source[scanner.offset]? with
  | none => some scanner
  | some byte =>
    if byte = Byte.newline then do
      let line ← succ32? scanner.line
      some ⟨scanner.source, scanner.offset + 1, line, 1⟩
    else do
      let column ← succ32? scanner.column
      some ⟨scanner.source, scanner.offset + 1, scanner.line, column⟩

def bumpTwo? (scanner : Scanner) : Option Scanner := do (← scanner.bump?).bump?

/-- A loop over the bytes that are left, whose step says whether to go on. A step that goes on
without a byte would stand still. -/
def loop? (step : Scanner → Option (Bool × Scanner)) (scanner : Scanner) : Option Scanner :=
  if scanner.isEnd then some scanner
  else
    match step scanner with
    | none => none
    | some (false, after) => some after
    | some (true, after) => if _shorter : after.left < scanner.left then loop? step after else none
termination_by scanner.left

/-- Takes bytes as long as they are among `goes`. -/
def bumpWhile? (goes : UInt8 → Bool) : Scanner → Option Scanner :=
  loop? fun scanner => do
    if goes (scanner.nth 0) then return (true, ← scanner.bump?) else return (false, scanner)

/-- Takes bytes among `goes`, `limit` of them at most, and says how many. -/
def bumpUpTo? (goes : UInt8 → Bool) : Nat → Scanner → Option (Nat × Scanner)
  | 0, scanner => some (0, scanner)
  | limit + 1, scanner => do
    if goes (scanner.nth 0) && !scanner.isEnd then
      let (count, after) ← bumpUpTo? goes limit (← scanner.bump?)
      return (count + 1, after)
    else return (0, scanner)

/-- The scanner that took the first bytes of the source one after the other. -/
def past (source : Bytes) (offset : Nat) : Scanner :=
  let place := Position.start.after (source.take offset)
  ⟨source, offset, UInt32.ofNat place.line, UInt32.ofNat place.column⟩

variable {source ahead rest : Bytes} {offset : Nat} {byte : UInt8}

theorem ofBytes_eq (source : Bytes) : ofBytes source = past source 0 := rfl

theorem drop_further (here : source.drop offset = ahead) (count : Nat) :
    source.drop (offset + count) = ahead.drop count := by
  rw [← List.drop_drop, here]

theorem drop_next (here : source.drop offset = byte :: rest) : source.drop (offset + 1) = rest :=
  drop_further here 1

theorem offset_lt (here : source.drop offset = byte :: rest) : offset < source.length := by
  have shorter := congrArg List.length here
  simp only [List.length_drop, List.length_cons] at shorter
  omega

theorem nth_past (here : source.drop offset = ahead) (distance : Nat) :
    (past source offset).nth distance = ahead[distance]?.getD 0 := by
  rw [← here, List.getElem?_drop]
  rfl

theorem first_past (here : source.drop offset = byte :: rest) : (past source offset).nth 0 = byte :=
  nth_past here 0

theorem second_past (here : source.drop offset = byte :: rest) :
    (past source offset).nth 1 = rest.head?.getD 0 := by
  rw [nth_past here 1, List.head?_eq_getElem?]
  rfl

/-- The byte ahead is known by its value, unless that is 0. -/
theorem first_eq_iff (here : source.drop offset = ahead) (real : byte ≠ 0) :
    (past source offset).nth 0 = byte ↔ ahead.head? = some byte := by
  rw [nth_past here, ← List.head?_eq_getElem?]
  cases ahead.head? with
  | none => simp [real.symm]
  | some other => simp

theorem isEnd_past (here : source.drop offset = ahead) :
    (past source offset).isEnd = ahead.isEmpty := by
  rw [← here, Bool.eq_iff_iff, List.isEmpty_iff, List.drop_eq_nil_iff]
  exact decide_eq_true_iff

theorem restore_past (offset tried : Nat) :
    (past source tried).restore (past source offset).snapshot = past source offset := rfl

theorem bump?_finished (here : source.drop offset = []) :
    (past source offset).bump? = some (past source offset) := by
  have none : source[offset]? = none := List.getElem?_eq_none (List.drop_eq_nil_iff.1 here)
  simp only [bump?, past, none]

section Short

variable (short : source.length < 2 ^ 32 - 1)
include short

theorem place_past (within : offset ≤ source.length) :
    (past source offset).place = Position.start.after (source.take offset) := by
  have length : (source.take offset).length = offset := List.length_take_of_le within
  have line := Position.line_le (source.take offset)
  have column := Position.column_le (source.take offset)
  have whole := Position.offset_start_after (source.take offset)
  rw [length] at line column whole
  simp only [place, past]
  rw [toNat_ofNat32 (by omega), toNat_ofNat32 (by omega)]
  exact congrArg (Position.mk _ _) whole.symm

theorem bump?_past (here : source.drop offset = byte :: rest) :
    (past source offset).bump? = some (past source (offset + 1)) := by
  have inside := offset_lt here
  have found : source[offset]? = some byte := by
    rw [← List.head?_drop, here, List.head?_cons]
  have longer : source.take (offset + 1) = source.take offset ++ [byte] := by
    rw [List.take_add_one, found, Option.toList_some]
  have length : (source.take offset).length = offset := List.length_take_of_le (Nat.le_of_lt inside)
  have line := Position.line_le (source.take offset)
  have column := Position.column_le (source.take offset)
  rw [length] at line column
  simp only [bump?, past, found, longer, Position.after_append]
  generalize Position.start.after (source.take offset) = before at *
  change _ = some (Scanner.mk _ _ (UInt32.ofNat (before.next byte).line)
    (UInt32.ofNat (before.next byte).column))
  unfold Position.next
  by_cases feed : byte = Byte.newline
  · rw [if_pos feed, if_pos feed, succ32?_ofNat (by omega)]
    rfl
  · rw [if_neg feed, if_neg feed, succ32?_ofNat (by omega)]
    rfl

theorem bumpTwo?_past {second : UInt8} (here : source.drop offset = byte :: second :: rest) :
    (past source offset).bumpTwo? = some (past source (offset + 2)) := by
  rw [bumpTwo?, bump?_past short here]
  exact bump?_past short (drop_next here)

theorem bumpTwo?_last (here : source.drop offset = [byte]) :
    (past source offset).bumpTwo? = some (past source (offset + 1)) := by
  rw [bumpTwo?, bump?_past short here]
  exact bump?_finished (drop_next here)

/-- A loop takes what each of its steps takes in turn. -/
theorem loop?_past {step : Scanner → Option (Bool × Scanner)} {count : Bytes → Nat}
    (empty : count [] = 0)
    (turn : ∀ offset byte rest, source.drop offset = byte :: rest →
      step (past source offset) = some (false, past source (offset + count (byte :: rest))) ∨
        ∃ taken, 0 < taken ∧ step (past source offset) = some (true, past source (offset + taken)) ∧
          count (byte :: rest) = taken + count ((byte :: rest).drop taken)) :
    ∀ offset ahead, source.drop offset = ahead →
      loop? step (past source offset) = some (past source (offset + count ahead)) := by
  intro offset ahead
  induction size : source.length - offset using Nat.strong_induction_on generalizing offset ahead
  next size ih =>
  intro here
  rw [loop?, isEnd_past here]
  cases ahead with
  | nil => simp [empty]
  | cons byte rest =>
    rcases turn offset byte rest here with stops | ⟨taken, positive, goes, further⟩
    · simp [stops]
    · have inside := offset_lt here
      have shorter : source.length - (offset + taken) < source.length - offset := by omega
      have later := ih _ (size ▸ shorter) (offset + taken) _ rfl (drop_further here taken)
      rw [further, ← Nat.add_assoc, ← later, goes]
      simp only [List.isEmpty_cons, Bool.false_eq_true, if_false]
      exact dif_pos shorter

theorem bumpWhile?_past (goes : UInt8 → Bool) (here : source.drop offset = ahead) :
    bumpWhile? goes (past source offset) =
      some (past source (offset + (ahead.takeWhile goes).length)) := by
  refine @loop?_past source short _ (fun ahead => (ahead.takeWhile goes).length) rfl
    (fun offset byte rest here => ?_) offset ahead here
  rw [first_past here, bump?_past short here]
  by_cases on : goes byte = true
  · refine .inr ⟨1, Nat.one_pos, by simp [on], ?_⟩
    simp only [List.takeWhile_cons_of_pos on, List.length_cons, List.drop_succ_cons, List.drop_zero]
    omega
  · refine .inl ?_
    simp [on]

theorem bumpUpTo?_past (goes : UInt8 → Bool) (limit : Nat) (here : source.drop offset = ahead) :
    bumpUpTo? goes limit (past source offset) =
      some (((ahead.take limit).takeWhile goes).length,
        past source (offset + ((ahead.take limit).takeWhile goes).length)) := by
  induction limit generalizing offset ahead with
  | zero => simp [bumpUpTo?]
  | succ limit ih =>
    rw [bumpUpTo?, isEnd_past here]
    cases ahead with
    | nil => simp
    | cons byte rest =>
      rw [first_past here, bump?_past short here]
      by_cases on : goes byte = true
      · simp [on, ih (drop_next here), Nat.add_right_comm, Nat.add_assoc]
      · simp [on]

end Short

end Scanner

end CssSyntax

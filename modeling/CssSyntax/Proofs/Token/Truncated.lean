import CssSyntax.Parser.State
import CssSyntax.Proofs.Token.Located

/-! Where a parser ends that was made of the first tokens of a source alone. The end is put as many
columns behind the start of the last token as that token has bytes. This is where the token stops if
its bytes are all on one line. -/

namespace CssSyntax

namespace Position

/-- The place so many bytes further on the same line. -/
def along (position : Position) (count : Nat) : Position :=
  ⟨position.line, position.column + count, position.offset + count⟩

theorem after_of_one_line {bytes : Bytes} (oneLine : Byte.newline ∉ bytes) (position : Position) :
    position.after bytes = position.along bytes.length := by
  induction bytes generalizing position with
  | nil => rfl
  | cons byte rest ih =>
    have other : byte ≠ Byte.newline := fun feed => oneLine (feed ▸ List.mem_cons_self)
    have step : position.next byte = position.along 1 := if_neg other
    change (position.next byte).after rest = _
    rw [ih fun member => oneLine (List.mem_cons_of_mem _ member), step]
    simp only [along, List.length_cons, mk.injEq, true_and]
    omega

/-- A place is further on the same line exactly if no line feed is on the way there. -/
theorem after_eq_along_iff {position : Position} {bytes : Bytes} :
    position.after bytes = position.along bytes.length ↔ Byte.newline ∉ bytes := by
  constructor
  · intro same
    have line : position.line + bytes.count Byte.newline = position.line := by
      rw [← line_after, same]
      rfl
    exact List.count_eq_zero.1 (by omega)
  · intro oneLine
    exact after_of_one_line oneLine position

end Position

/-- The bytes up to where a token stops lead from its start over its literal. -/
theorem Located.after_stop {source : Bytes} {token : Token} {back : List Token}
    (located : Located source token back) :
    Position.start.after (source.take token.stop) = token.start.after token.literal := by
  have start := located.start_eq
  have front : token.literal <+: source.drop token.start.offset := by
    cases located with
    | finish => exact List.nil_prefix
    | @lexeme before rest first lexeme split read =>
      rw [drop_offset split]
      exact List.cons_prefix_cons.2 ⟨rfl, List.take_prefix _ _⟩
  have whole : source.take token.stop = source.take token.start.offset ++ token.literal := by
    rw [Token.stop, List.take_add, ← List.prefix_iff_eq_take.1 front]
  rw [whole, Position.after_append, ← start]

/-- The end that is put behind the tokens of a source that are kept. -/
def endOfKept (kept : List Token) : Position :=
  kept.getLast?.elim .start fun last => last.start.along last.literal.length

theorem ofTokens_truncated (settings : Settings) {source : Bytes} {kept : List Token}
    (part : kept <+: (tokenize source).dropLast) :
    Parser.ofTokens settings kept = ⟨settings, kept, endOfKept kept, []⟩ := by
  unfold Parser.ofTokens endOfKept
  cases is : kept.getLast? with
  | none =>
    obtain rfl := List.getLast?_eq_none_iff.1 is
    rfl
  | some last =>
    obtain ⟨front, position, split, -, real⟩ := (tokenize_lossless source).finish
    have member : last ∈ front := by
      rw [split, List.dropLast_concat] at part
      exact part.subset (List.mem_of_getLast? is)
    dsimp only
    rw [if_neg (real last member)]
    rfl

/-- A parser made of the first tokens of a source ends one byte behind the last of them, and at the
start if there is none. The line and the column of this end are those of the source exactly if no
line feed is in the last token. -/
theorem truncated_end (settings : Settings) (source : Bytes) (count : Nat) :
    let kept := (tokenize source).dropLast.take count
    let parser := Parser.ofTokens settings kept
    parser.ahead = kept ∧
      parser.finish.offset = kept.getLast?.elim 0 Token.stop ∧
      (parser.finish = Position.start.after (source.take parser.finish.offset) ↔
        ∀ last ∈ kept.getLast?, Byte.newline ∉ last.literal) := by
  intro kept parser
  have part : kept <+: (tokenize source).dropLast := List.take_prefix _ _
  have made : parser = ⟨settings, kept, endOfKept kept, []⟩ := ofTokens_truncated settings part
  rw [made]
  refine ⟨rfl, ?_⟩
  unfold endOfKept
  cases is : kept.getLast? with
  | none => exact ⟨rfl, fun _ _ none => absurd none (Option.not_mem_none _), fun _ => rfl⟩
  | some last =>
    have member : last ∈ tokenize source :=
      List.mem_of_mem_dropLast (part.subset (List.mem_of_getLast? is))
    obtain ⟨front, back, split⟩ := List.append_of_mem member
    have stop := (tokenize_located split).after_stop
    refine ⟨rfl, ?_⟩
    change last.start.along last.literal.length = Position.start.after (source.take last.stop) ↔ _
    rw [stop, eq_comm, Position.after_eq_along_iff]
    simp

/-- Behind a comment of two lines the end is still on the first of them. -/
theorem truncated_end_misplaced :
    ¬∀ settings source count,
      let parser := Parser.ofTokens settings ((tokenize source).dropLast.take count)
      parser.finish = Position.start.after (source.take parser.finish.offset) := by
  intro all
  have tokens : tokenize (utf8 "/*\n*/") =
      [⟨.comment, utf8 "/*\n*/", ⟨1, 1, 0⟩⟩, .endOfInput ⟨2, 3, 5⟩] := by
    decide +kernel
  have wrong := all .standard (utf8 "/*\n*/") 1
  rw [tokens] at wrong
  exact absurd wrong (by decide +kernel)

end CssSyntax

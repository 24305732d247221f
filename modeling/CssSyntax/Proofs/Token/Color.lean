import CssSyntax.Proofs.Token.Located

/-! Which hashes are colors. Three or six hex digits behind the `#` are one with it unless the name
goes on, and what is no color leaves no trace: the bytes behind the `#` are read afresh. -/

namespace CssSyntax

/-- The digits behind the `#` of a color: three or six, with no byte of a name behind them. -/
structure ColorDigits (rest digits : Bytes) : Prop where
  written : digits <+: rest
  hex : ∀ byte ∈ digits, Byte.isHexDigit byte = true
  count : digits.length = 3 ∨ digits.length = 6
  ends : ∀ byte ∈ (rest.drop digits.length).head?, Byte.isIdentPart byte = false

theorem Byte.isHexDigit_of_not_isIdentPart {byte : UInt8} (ends : isIdentPart byte = false) :
    isHexDigit byte = false := by
  rw [Bool.eq_false_iff] at ends ⊢
  refine mt (fun hex => ?_) ends
  simp only [isHexDigit, isIdentPart, isIdentStart, isLetter, isUpper, isLower, Bool.or_eq_true,
    Bool.and_eq_true, decide_eq_true_eq] at hex ⊢
  have upper : (0x46 : UInt8) ≤ 0x5a := by decide
  have lower : (0x66 : UInt8) ≤ 0x7a := by decide
  rcases hex with (digit | ⟨low, high⟩) | ⟨low, high⟩
  · exact .inl (.inr digit)
  · exact .inl (.inl (.inl (.inl (.inl ⟨low, UInt8.le_trans high upper⟩))))
  · exact .inl (.inl (.inl (.inl (.inr ⟨low, UInt8.le_trans high lower⟩))))

namespace Lexeme

variable {rest digits : Bytes}

theorem ofHash_of_colorDigits (color : ColorDigits rest digits) :
    ofHash rest = ⟨.color, digits.length⟩ := by
  obtain ⟨⟨tail, rfl⟩, hex, count, ends⟩ := color
  rw [List.drop_left] at ends
  have stops : (tail.take (6 - digits.length)).takeWhile Byte.isHexDigit = [] := by
    cases tail with
    | nil => simp
    | cons byte tail =>
      have first := Byte.isHexDigit_of_not_isIdentPart (ends byte rfl)
      rw [← List.take_takeWhile, List.takeWhile_cons_of_neg (by simp [first]), List.take_nil]
  have read : ((digits ++ tail).take 6).takeWhile Byte.isHexDigit = digits := by
    have short : digits.length ≤ 6 := by omega
    rw [List.take_append, List.take_of_length_le short, List.takeWhile_append_of_pos hex, stops,
      List.append_nil]
  have free : tail.head?.any Byte.isIdentPart = false := by
    cases tail with
    | nil => rfl
    | cons byte tail => exact ends byte rfl
  unfold ofHash
  dsimp only
  rw [read, List.drop_left, free]
  exact if_pos ⟨count, rfl⟩

theorem ofHash_of_none (none : ¬∃ digits, ColorDigits rest digits) : ofHash rest = ⟨.hash, 0⟩ := by
  refine if_neg fun ⟨count, free⟩ => none ⟨(rest.take 6).takeWhile Byte.isHexDigit, ?_⟩
  refine ⟨(List.takeWhile_prefix _).trans (List.take_prefix 6 rest),
    fun _ => List.mem_takeWhile_imp, count, fun byte first => ?_⟩
  rw [Option.mem_def.1 first] at free
  simpa using free

end Lexeme

namespace Located

variable {source : Bytes} {token : Token} {back : List Token}

/-- What starts with `#` was read behind it. -/
theorem of_hash (located : Located source token back)
    (sharp : token.literal.head? = some Byte.hash) :
    ∃ rest, source.drop token.start.offset = Byte.hash :: rest ∧
      token.kind = (Lexeme.ofHash rest).kind ∧
      token.literal = (Lexeme.ofHash rest).literal Byte.hash rest ∧
      back = tokensFrom (token.start.after token.literal)
        (rest.drop (Lexeme.ofHash rest).extra) := by
  cases located with
  | finish => exact absurd sharp.symm (Option.some_ne_none _)
  | @lexeme before rest first lexeme split read =>
    obtain rfl : first = Byte.hash := Option.some.inj sharp
    obtain rfl : Lexeme.ofHash rest = lexeme := read
    refine ⟨rest, drop_offset split, rfl, rfl, ?_⟩
    rw [Position.after_append]

end Located

/-- A `#` is a color with three or six hex digits behind it that end there, and else a hash alone,
with the bytes behind it read as a source that starts there. -/
theorem tokenize_hash {source : Bytes} {front back : List Token} {token : Token}
    (split : tokenize source = front ++ token :: back)
    (sharp : token.literal.head? = some Byte.hash) :
    ∃ rest, source.drop token.start.offset = Byte.hash :: rest ∧
      (token.kind = .color ↔ ∃ digits, ColorDigits rest digits) ∧
      (∀ digits, ColorDigits rest digits → token.literal = Byte.hash :: digits) ∧
      ((¬∃ digits, ColorDigits rest digits) →
        token.kind = .hash ∧ token.literal = [Byte.hash] ∧
          back = (tokenize rest).map fun later => later.movedTo
            ⟨token.start.line, token.start.column + 1, token.start.offset + 1⟩) := by
  obtain ⟨rest, here, kind, literal, behind⟩ := (tokenize_located split).of_hash sharp
  refine ⟨rest, here, ?_, fun digits color => ?_, fun none => ?_⟩
  · rw [kind]
    by_cases some : ∃ digits, ColorDigits rest digits
    · obtain ⟨digits, color⟩ := some
      rw [Lexeme.ofHash_of_colorDigits color]
      exact iff_of_true rfl ⟨digits, color⟩
    · rw [Lexeme.ofHash_of_none some]
      exact iff_of_false (by simp) some
  · rw [literal, Lexeme.ofHash_of_colorDigits color]
    exact congrArg (Byte.hash :: ·) (List.prefix_iff_eq_take.1 color.written).symm
  · rw [Lexeme.ofHash_of_none none] at kind literal behind
    have alone : token.literal = [Byte.hash] := literal
    have moved := tokensFrom_movedTo (token.start.next Byte.hash) Position.start_counted rest
    rw [alone] at behind
    exact ⟨kind, alone, behind.trans moved⟩

/-- Three digits with a semicolon behind them, and four on the next line. -/
theorem tokenize_hash_lines :
    ∃ color semicolon hash back,
      tokenize (utf8 "#aB1;\n#1234") = color :: semicolon :: hash :: back ∧
        (∃ digits, ColorDigits (utf8 "aB1;\n#1234") digits ∧
          color.literal = Byte.hash :: digits) ∧
        hash.kind = .hash ∧
          back = (tokenize (utf8 "1234")).map fun later => later.movedTo ⟨2, 2, 7⟩ := by
  have tokens : tokenize (utf8 "#aB1;\n#1234") =
      [⟨.color, utf8 "#aB1", ⟨1, 1, 0⟩⟩, ⟨.semicolon, utf8 ";", ⟨1, 5, 4⟩⟩,
        ⟨.hash, utf8 "#", ⟨2, 1, 6⟩⟩, ⟨.number, utf8 "1234", ⟨2, 2, 7⟩⟩,
        .endOfInput ⟨2, 6, 11⟩] := by
    decide +kernel
  refine ⟨_, _, _, _, tokens, ?_, rfl, ?_⟩
  · obtain ⟨rest, here, color, literal, -⟩ := @tokenize_hash _ [] _ _ tokens rfl
    obtain rfl : utf8 "aB1;\n#1234" = rest := (List.cons.inj here).2
    obtain ⟨digits, is⟩ := color.1 rfl
    exact ⟨digits, is, literal digits is⟩
  · obtain ⟨rest, here, color, -, alone⟩ := @tokenize_hash _ [_, _] _ _ tokens rfl
    obtain rfl : utf8 "1234" = rest := (List.cons.inj here).2
    have none : ¬∃ digits, ColorDigits (utf8 "1234") digits :=
      fun some => absurd (color.2 some) (by simp)
    exact (alone none).2.2

end CssSyntax

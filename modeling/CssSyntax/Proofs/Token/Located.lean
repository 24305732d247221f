import CssSyntax.Proofs.Token.Newline
import Mathlib.Data.List.DropRight

/-! Where the tokens of a source stand. The bytes before a token give its place, the bytes from it
on give the token itself, and what is behind it is read from there as any source is. -/

namespace CssSyntax

/-- A token of the source and the tokens behind it. -/
inductive Located (source : Bytes) : Token → List Token → Prop where
  | finish : Located source (Token.endOfInput (Position.start.after source)) []
  | lexeme {before rest : Bytes} {first : UInt8} {lexeme : Lexeme}
      (split : source = before ++ first :: rest) (read : Lexeme.ofFirst first rest = lexeme) :
      Located source ⟨lexeme.kind, lexeme.literal first rest, Position.start.after before⟩
        (tokensFrom (Position.start.after (before ++ lexeme.literal first rest))
          (rest.drop lexeme.extra))

theorem tokensFrom_located (position : Position) (rest : Bytes) :
    ∀ before front token back, position = Position.start.after before →
      tokensFrom position rest = front ++ token :: back → Located (before ++ rest) token back := by
  fun_induction tokensFrom position rest with
  | case1 position rest none =>
    rintro before front token back rfl split
    cases front with
    | nil =>
      obtain ⟨rfl, rfl⟩ := List.cons.inj split
      rw [← Position.after_append]
      exact .finish
    | cons first others => simp at split
  | case2 position rest cut found start ih =>
    intro before front token back place split
    obtain ⟨first, behind, -, kind, literal, left⟩ := Cut.of_found found
    have whole : before ++ rest = before ++ cut.gap ++ first :: behind := by
      rw [← Cut.ofBytes?_append found, literal, left]
      simp [Lexeme.literal]
    have here : start = Position.start.after (before ++ cut.gap) := by
      rw [Position.after_append, ← place]
    have next : start.after cut.literal =
        Position.start.after (before ++ cut.gap ++ cut.literal) := by
      rw [here, ← Position.after_append]
    cases front with
    | nil =>
      obtain ⟨rfl, rfl⟩ := List.cons.inj split
      rw [next, here, kind, literal, left]
      exact .lexeme whole rfl
    | cons other front =>
      have behind := ih _ front token back next (List.cons.inj split).2
      rwa [List.append_assoc, List.append_assoc, ← List.append_assoc cut.gap,
        Cut.ofBytes?_append found] at behind

theorem tokenize_located {source : Bytes} {front back : List Token} {token : Token}
    (split : tokenize source = front ++ token :: back) : Located source token back :=
  tokensFrom_located .start source [] front token back rfl split

/-- The tokens of a source are cut off one after the other. -/
theorem tokensFrom_split {position : Position} {source : Bytes} {token : Token}
    {tokens : List Token} (split : (tokensFrom position source).dropLast = token :: tokens) :
    ∃ cut, Cut.ofBytes? source = some cut ∧
      token = ⟨cut.kind, cut.literal, position.after cut.gap⟩ ∧
      (tokensFrom ((position.after cut.gap).after cut.literal) cut.rest).dropLast = tokens := by
  cases found : Cut.ofBytes? source with
  | none =>
    rw [tokensFrom_none found] at split
    exact absurd split (List.cons_ne_nil token tokens).symm
  | some cut =>
    rw [tokensFrom_cut found, List.dropLast_cons_of_ne_nil (tokensFrom_ne_nil _ _)] at split
    obtain ⟨rfl, rfl⟩ := List.cons.inj split
    exact ⟨cut, rfl, rfl, rfl⟩

/-- What is left of the tokens of a source are the tokens of what is left of it. -/
theorem exists_tokensFrom_of_suffix {position : Position} {source : Bytes} {tokens : List Token}
    (part : tokens <:+ (tokensFrom position source).dropLast) :
    ∃ place rest, (tokensFrom place rest).dropLast = tokens := by
  fun_induction tokensFrom position source with
  | case1 position source none =>
    exact ⟨position, [], by rw [tokensFrom_nil]; exact (List.suffix_nil.1 part).symm⟩
  | case2 position source cut found start ih =>
    rw [List.dropLast_cons_of_ne_nil (tokensFrom_ne_nil _ _)] at part
    rcases List.suffix_cons_iff.1 part with rfl | later
    · refine ⟨position, source, ?_⟩
      rw [tokensFrom_cut found, List.dropLast_cons_of_ne_nil (tokensFrom_ne_nil _ _)]
    · exact ih later

theorem tokensFrom_contents (place position : Position) (source : Bytes) :
    (tokensFrom place source).map Token.content =
      (tokensFrom position source).map Token.content := by
  fun_induction tokensFrom position source generalizing place with
  | case1 position source none =>
    rw [tokensFrom_none none]
    rfl
  | case2 position source cut found start ih =>
    rw [tokensFrom_cut found, List.map_cons, List.map_cons, ih]
    rfl

namespace Position

theorem offset_start_after (bytes : Bytes) : (start.after bytes).offset = bytes.length := by
  rw [offset_after]
  exact Nat.zero_add _

theorem line_start_after (bytes : Bytes) :
    (start.after bytes).line = 1 + bytes.count Byte.newline :=
  line_after start bytes

/-- No line is further down than there are bytes before it. -/
theorem line_le (bytes : Bytes) : (start.after bytes).line ≤ 1 + bytes.length := by
  rw [line_start_after]
  exact Nat.add_le_add_left List.count_le_length 1

/-- Columns count from the last line feed on. -/
theorem column_start_after (bytes : Bytes) :
    (start.after bytes).column = 1 + (bytes.rtakeWhile (· != Byte.newline)).length := by
  induction bytes using List.reverseRecOn with
  | nil => rfl
  | append_singleton front byte ih =>
    rw [after_append, List.rtakeWhile_concat]
    change ((start.after front).next byte).column = _
    unfold next
    by_cases feed : byte = Byte.newline
    · simp [feed]
    · simp only [feed, if_false, bne_iff_ne, ne_eq, not_false_eq_true, if_true,
        List.length_append, List.length_singleton, ih]
      omega

theorem column_le (bytes : Bytes) : (start.after bytes).column ≤ 1 + bytes.length := by
  rw [column_start_after]
  exact Nat.add_le_add_left (List.rtakeWhile_suffix _ bytes).length_le 1

end Position

namespace Located

variable {source : Bytes} {token : Token} {back : List Token}

/-- A token stands where the bytes before it lead. -/
theorem start_eq (located : Located source token back) :
    token.start = Position.start.after (source.take token.start.offset) := by
  cases located with
  | finish =>
    dsimp only [Token.endOfInput]
    rw [Position.offset_start_after, List.take_length]
  | @lexeme before rest first lexeme split read =>
    dsimp only
    rw [Position.offset_start_after, split, List.take_left]

end Located

/-- The source goes on behind its first part. -/
theorem drop_offset {source before rest : Bytes} (split : source = before ++ rest) :
    source.drop (Position.start.after before).offset = rest := by
  rw [Position.offset_start_after, split, List.drop_left]

end CssSyntax

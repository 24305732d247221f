import CssSyntax.Proofs.Scanner.Lexeme

/-! All tokens of a source, read by the machine. In a source that 32 bits can count they are those
of the model, so that the counters of the machine are the lines and the columns of the tokens. -/

namespace CssSyntax

namespace Scanner

/-- The token that starts here. -/
def cut? (scanner : Scanner) : Option (Token × Scanner) := do
  let (kind, after) ← scanner.lexeme?
  return (⟨kind, ← after.since? scanner.offset, scanner.place⟩, after)

/-- The next token behind white space. -/
def token? (scanner : Scanner) : Option (Token × Scanner) := do
  (← bumpWhile? Byte.isWhiteSpace scanner).cut?

/-- All tokens up to the end of the input. -/
def tokens? (scanner : Scanner) : Option (List Token) :=
  match scanner.token? with
  | none => none
  | some (token, after) =>
    if token.kind = .eof then some [token]
    else if _shorter : after.left < scanner.left then (token :: ·) <$> after.tokens?
    else none
termination_by scanner.left

variable {source ahead rest : Bytes} {offset : Nat} {first : UInt8}

theorem drop_dropWhile (here : source.drop offset = ahead) (goes : UInt8 → Bool) :
    source.drop (offset + (ahead.takeWhile goes).length) = ahead.dropWhile goes := by
  have split := List.takeWhile_append_dropWhile (p := goes) (l := ahead)
  rw [drop_further here]
  calc ahead.drop (ahead.takeWhile goes).length
      = (ahead.takeWhile goes ++ ahead.dropWhile goes).drop (ahead.takeWhile goes).length := by
        rw [split]
    _ = ahead.dropWhile goes := List.drop_left

/-- Further on in the source the place is further on too. -/
theorem after_further (here : source.drop offset = ahead) {front : Bytes}
    (starts : front <+: ahead) :
    Position.start.after (source.take (offset + front.length)) =
      (Position.start.after (source.take offset)).after front := by
  rw [List.take_add, here, ← List.prefix_iff_eq_take.1 starts, Position.after_append]

theorem stop_le (within : offset ≤ source.length) (here : source.drop offset = ahead)
    {front : Bytes} (starts : front <+: ahead) : offset + front.length ≤ source.length := by
  have length := congrArg List.length here
  have shorter := starts.length_le
  rw [List.length_drop] at length
  omega

section Short

variable (short : source.length < 2 ^ 32 - 1)
include short

theorem cut?_finished (within : offset ≤ source.length) (here : source.drop offset = []) :
    (past source offset).cut? =
      some (.endOfInput (Position.start.after (source.take offset)), past source offset) := by
  have ends : (past source offset).lexeme? = some (.eof, past source offset) := by
    rw [lexeme?, isEnd_past here]
    rfl
  have nothing : (past source offset).since? (past source offset).offset = some [] := by
    refine (if_pos ⟨Nat.le_refl _, within⟩).trans (congrArg some ?_)
    exact List.drop_eq_nil_iff.2 (List.length_take_le _ _)
  rw [cut?, ends, Option.bind_eq_bind, Option.bind_some]
  dsimp only
  rw [nothing, place_past short within]
  rfl

theorem cut?_past (here : source.drop offset = first :: rest) :
    (past source offset).cut? =
      some (⟨(Lexeme.ofFirst first rest).kind, (Lexeme.ofFirst first rest).literal first rest,
        Position.start.after (source.take offset)⟩,
          past source (offset + 1 + (Lexeme.ofFirst first rest).extra)) := by
  have within := (Lexeme.ofFirst_delimited first).within rest
  have place := place_past short (Nat.le_of_lt (offset_lt here))
  rw [cut?, lexeme?_cuts short here, Option.bind_eq_bind, Option.bind_some]
  dsimp only
  rw [since?_past here within, place]
  rfl

theorem token?_past (here : source.drop offset = ahead) :
    (past source offset).token? =
      (past source (offset + (ahead.takeWhile Byte.isWhiteSpace).length)).cut? := by
  rw [token?, bumpWhile?_past short _ here]
  rfl

theorem token?_of_none (within : offset ≤ source.length) (here : source.drop offset = ahead)
    (none : Cut.ofBytes? ahead = none) :
    ∃ after, (past source offset).token? =
      some (.endOfInput ((Position.start.after (source.take offset)).after ahead), after) := by
  have blank : ahead.dropWhile Byte.isWhiteSpace = [] := by
    unfold Cut.ofBytes? at none
    split at none
    · assumption
    · exact absurd none (Option.some_ne_none _)
  have whole : ahead.takeWhile Byte.isWhiteSpace = ahead := by
    rw [← List.append_nil (ahead.takeWhile Byte.isWhiteSpace), ← blank,
      List.takeWhile_append_dropWhile]
  have finished := (drop_dropWhile here Byte.isWhiteSpace).trans blank
  have all := List.prefix_refl ahead
  rw [whole] at finished
  refine ⟨past source (offset + ahead.length), ?_⟩
  rw [token?_past short here, whole, cut?_finished short (stop_le within here all) finished,
    after_further here all]

theorem token?_of_some {cut : Cut} (here : source.drop offset = ahead)
    (found : Cut.ofBytes? ahead = some cut) :
    (past source offset).token? =
      some (⟨cut.kind, cut.literal, (Position.start.after (source.take offset)).after cut.gap⟩,
        past source (offset + (cut.gap ++ cut.literal).length)) := by
  unfold Cut.ofBytes? at found
  split at found
  · exact absurd found.symm (Option.some_ne_none cut)
  next first rest split =>
  obtain rfl := Option.some.inj found
  have ink := (drop_dropWhile here Byte.isWhiteSpace).trans split
  have within := (Lexeme.ofFirst_delimited first).within rest
  have size : offset + (ahead.takeWhile Byte.isWhiteSpace ++
        first :: rest.take (Lexeme.ofFirst first rest).extra).length =
      offset + (ahead.takeWhile Byte.isWhiteSpace).length + 1 +
        (Lexeme.ofFirst first rest).extra := by
    rw [List.length_append, List.length_cons, List.length_take_of_le within]
    omega
  rw [token?_past short here, cut?_past short ink,
    after_further here (List.takeWhile_prefix Byte.isWhiteSpace), size]
  rfl

/-- The machine reads all tokens, at the places that the bytes before them lead to. -/
theorem tokens?_past (position : Position) (ahead : Bytes) :
    ∀ offset, offset ≤ source.length → position = Position.start.after (source.take offset) →
      source.drop offset = ahead →
        (past source offset).tokens? = some (tokensFrom position ahead) := by
  fun_induction tokensFrom position ahead with
  | case1 position ahead none =>
    rintro offset within rfl here
    obtain ⟨after, ends⟩ := token?_of_none short within here none
    rw [tokens?, ends]
    rfl
  | case2 position ahead cut found start ih =>
    rintro offset within rfl here
    have parts := Cut.ofBytes?_append found
    have front : cut.gap ++ cut.literal <+: ahead := ⟨cut.rest, parts⟩
    have stop := stop_le within here front
    have left : source.drop (offset + (cut.gap ++ cut.literal).length) = cut.rest := by
      rw [drop_further here, ← parts, List.drop_left]
    have later := ih _ stop (by rw [after_further here front, Position.after_append]) left
    have some := List.length_pos_iff.2 (Cut.literal_ne_nil found)
    have shorter : source.length - (offset + (cut.gap ++ cut.literal).length) <
        source.length - offset := by
      rw [List.length_append] at stop ⊢
      omega
    rw [tokens?, token?_of_some short here found]
    dsimp only
    rw [if_neg (Cut.kind_ne_eof found)]
    refine (dif_pos shorter).trans ?_
    rw [later]
    rfl

end Short

/-- All tokens of a source, read from its first byte on. -/
def tokenize? (source : Bytes) : Option (List Token) := (ofBytes source).tokens?

theorem tokenize?_eq {source : Bytes} (short : source.length < 2 ^ 32 - 1) :
    tokenize? source = some (tokenize source) := by
  rw [tokenize?, ofBytes_eq]
  exact tokens?_past short .start source 0 (Nat.zero_le _) rfl rfl

end Scanner

/-- Lines count the line feeds before a token, and columns the bytes behind the last of them. The
counters of the machine hold them all. -/
theorem tokenize_placed (source : Bytes) (short : source.length < 2 ^ 32 - 1) :
    Scanner.tokenize? source = some (tokenize source) ∧
      ∀ token ∈ tokenize source,
        token.start.line = 1 + (source.take token.start.offset).count Byte.newline ∧
          token.start.column = 1 +
            ((source.take token.start.offset).rtakeWhile (· != Byte.newline)).length := by
  refine ⟨Scanner.tokenize?_eq short, fun token member => ?_⟩
  obtain ⟨front, back, split⟩ := List.append_of_mem member
  have start := (tokenize_located split).start_eq
  have line := Position.line_start_after (source.take token.start.offset)
  have column := Position.column_start_after (source.take token.start.offset)
  rw [← start] at line column
  exact ⟨line, column⟩

/-- Behind a comment of two lines, digits that are no color and are read once more. -/
theorem tokenize_placed_rewound :
    ∃ source token, source.length < 2 ^ 32 - 1 ∧ token ∈ tokenize source ∧
      Scanner.tokenize? source = some (tokenize source) ∧
        token = ⟨.ident, utf8 "abcd", ⟨2, 5, 7⟩⟩ ∧
          token.start.line = 1 + (source.take 7).count Byte.newline ∧
            token.start.column = 1 + ((source.take 7).rtakeWhile (· != Byte.newline)).length := by
  have tokens : tokenize (utf8 "/*\n*/ #abcd") =
      [⟨.comment, utf8 "/*\n*/", ⟨1, 1, 0⟩⟩, ⟨.hash, utf8 "#", ⟨2, 4, 6⟩⟩,
        ⟨.ident, utf8 "abcd", ⟨2, 5, 7⟩⟩, .endOfInput ⟨2, 9, 11⟩] := by
    decide +kernel
  have short : (utf8 "/*\n*/ #abcd").length < 2 ^ 32 - 1 := by decide
  have member : ⟨.ident, utf8 "abcd", ⟨2, 5, 7⟩⟩ ∈ tokenize (utf8 "/*\n*/ #abcd") := by
    simp [tokens]
  obtain ⟨reads, all⟩ := tokenize_placed _ short
  exact ⟨_, _, short, member, reads, rfl, all _ member⟩

end CssSyntax

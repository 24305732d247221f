import CssSyntax.Proofs.Token.Located

/-! Where delimited tokens end. A comment ends with the first end mark behind its opening, a string
or a url with the first of its delimiters that no backslash escapes. What has no such end in the
source goes on to the end of the source. -/

namespace CssSyntax

/-- The byte stands in the text behind `front`, and no backslash escapes it there. A backslash
escapes the next byte, whatever that is. -/
def Bytes.Unescaped (text front : Bytes) (byte : UInt8) : Prop :=
  (∃ back, text = front ++ byte :: back) ∧ endsEscaping front = false

/-- How much of `rest` delimited text takes whose opening stands right before `rest`. It is closed
by the first `closing` that is not escaped, unless a byte that breaks it off comes first. -/
inductive TextEnds (closing : UInt8) (breaks : UInt8 → Prop) (rest : Bytes) : Bytes → Prop where
  | closed {body : Bytes} (ends : rest.Unescaped body closing)
      (first : ∀ front byte, Bytes.Unescaped body front byte → byte ≠ closing ∧ ¬breaks byte) :
      TextEnds closing breaks rest (body ++ [closing])
  | broken {body : Bytes} {stop : UInt8} (ends : rest.Unescaped body stop) (halts : breaks stop)
      (first : ∀ front byte, Bytes.Unescaped body front byte → byte ≠ closing ∧ ¬breaks byte) :
      TextEnds closing breaks rest body
  | endless (none : ∀ front byte, rest.Unescaped front byte → byte ≠ closing ∧ ¬breaks byte) :
      TextEnds closing breaks rest rest

/-- How much of `rest` a comment takes whose opening stands right before `rest`. -/
inductive CommentEnds (rest : Bytes) : Bytes → Prop where
  | closed {body more : Bytes} (ends : rest = body ++ utf8 "*/" ++ more)
      (first : ∀ front back, rest = front ++ utf8 "*/" ++ back → body.length ≤ front.length) :
      CommentEnds rest (body ++ utf8 "*/")
  | endless (none : ∀ front back, rest ≠ front ++ utf8 "*/" ++ back) : CommentEnds rest rest

section Texts

variable {closing : UInt8} {breaks : UInt8 → Bool} {body : Bytes} {final : TextState}

theorem step_closing : TextState.step closing breaks .inside closing = some .closed := if_pos rfl

/-- While the text is not closed, its bytes neither close it nor break it off. -/
theorem unescaped_of_reaches (plain : closing ≠ Byte.backslash)
    (reaches : body.foldlM (TextState.step closing breaks) .inside = some final)
    (going : final ≠ .closed) :
    ∀ front byte, Bytes.Unescaped body front byte → byte ≠ closing ∧ ¬breaks byte = true := by
  rintro front byte ⟨⟨back, rfl⟩, free⟩
  rw [List.foldlM_append] at reaches
  obtain ⟨state, read, behind⟩ := Option.bind_eq_some_iff.1 reaches
  rw [List.foldlM_cons] at behind
  obtain ⟨next, taken, further⟩ := Option.bind_eq_some_iff.1 behind
  have escapes : state.isEscape = Bytes.endsEscaping front :=
    isEscape_final (fun _ _ _ => TextState.step_escapes plain) read
  rw [free] at escapes
  cases state with
  | inside =>
    have other : byte ≠ closing := by
      rintro rfl
      obtain rfl := Option.some.inj (taken.symm.trans step_closing)
      cases back with
      | nil => exact going (Option.some.inj further).symm
      | cons _ _ => exact absurd further.symm (Option.some_ne_none final)
    refine ⟨other, fun halts => ?_⟩
    rw [TextState.step, if_neg other, if_pos halts] at taken
    exact absurd taken.symm (Option.some_ne_none next)
  | escape => exact absurd escapes.symm Bool.false_ne_true
  | closed => exact absurd taken.symm (Option.some_ne_none next)

/-- Inside a text only a byte that breaks it off is refused. -/
theorem breaks_of_refused {byte : UInt8}
    (refused : TextState.step closing breaks .inside byte = none) : breaks byte = true := by
  by_contra goes
  rw [TextState.step] at refused
  split at refused
  · exact absurd refused (Option.some_ne_none _)
  · split at refused <;> exact absurd refused (Option.some_ne_none _)

/-- The machine stops where text that one byte closes ends. -/
theorem textEnds_extent (plain : closing ≠ Byte.backslash) (rest : Bytes) :
    TextEnds closing (breaks · = true) rest
      (rest.take (extent (TextState.step closing breaks) .inside rest)) := by
  obtain ⟨final, reaches, refused⟩ := extent_maximal (TextState.step closing breaks) .inside rest
  have whole := List.take_append_drop (extent (TextState.step closing breaks) .inside rest) rest
  generalize rest.take (extent (TextState.step closing breaks) .inside rest) = taken at *
  generalize rest.drop (extent (TextState.step closing breaks) .inside rest) = left at *
  have escapes {front : Bytes} {state : TextState}
      (read : front.foldlM (TextState.step closing breaks) .inside = some state) :
      state.isEscape = Bytes.endsEscaping front :=
    isEscape_final (fun _ _ _ => TextState.step_escapes plain) read
  by_cases closed : final = .closed
  · subst closed
    rcases List.eq_nil_or_concat taken with rfl | ⟨body, last, rfl⟩
    · exact absurd (Option.some.inj reaches) (by simp)
    rw [List.concat_eq_append] at reaches whole ⊢
    obtain ⟨state, read, closes⟩ := foldlM_concat.1 reaches
    obtain ⟨rfl, rfl⟩ := closed_of_step closes
    refine .closed ⟨⟨left, ?_⟩, (escapes read).symm⟩ (unescaped_of_reaches plain read (by simp))
    rw [← whole, List.append_assoc]
    rfl
  · have first := unescaped_of_reaches plain reaches closed
    cases left with
    | nil =>
      rw [List.append_nil] at whole
      subst whole
      exact .endless first
    | cons byte more =>
      have stops := refused byte rfl
      cases final with
      | inside =>
        exact .broken ⟨⟨more, whole.symm⟩, (escapes reaches).symm⟩ (breaks_of_refused stops) first
      | escape => exact absurd stops (Option.some_ne_none _)
      | closed => exact absurd rfl closed

theorem stringEnds_extent {quote : UInt8} (isQuote : Byte.isQuote quote = true) (rest : Bytes) :
    TextEnds quote (· = Byte.newline) rest
      (rest.take (extent (TextState.stringStep quote) .inside rest)) := by
  rw [TextState.stringStep_eq]
  simpa only [beq_iff_eq] using
    @textEnds_extent quote (· == Byte.newline) (ne_backslash_of_isQuote isQuote) rest

theorem urlEnds_extent (rest : Bytes) :
    TextEnds Byte.closeParen (fun _ => False) rest
      (rest.take (extent TextState.urlStep .inside rest)) := by
  rw [TextState.urlStep_eq]
  simpa only [Bool.false_eq_true] using
    @textEnds_extent Byte.closeParen (fun _ => false) (by decide) rest

end Texts

section Comments

variable {front back : Bytes} {final : CommentState}

/-- Behind its end mark a comment takes nothing. -/
theorem final_of_endMark
    (reaches : (front ++ utf8 "*/" ++ back).foldlM CommentState.step .inside = some final) :
    back = [] ∧ final = .closed := by
  rw [List.foldlM_append] at reaches
  obtain ⟨state, read, further⟩ := Option.bind_eq_some_iff.1 reaches
  obtain rfl := final_of_comment read
  cases back with
  | nil => exact ⟨rfl, (Option.some.inj further).symm⟩
  | cons _ _ => exact absurd further.symm (Option.some_ne_none final)

/-- The machine stops where a comment ends. -/
theorem commentEnds_extent (rest : Bytes) :
    CommentEnds rest (rest.take (extent CommentState.step .inside rest)) := by
  by_cases finished : ∃ body, rest.take (extent CommentState.step .inside rest) = body ++ utf8 "*/"
  · obtain ⟨final, reaches, -⟩ := extent_maximal CommentState.step .inside rest
    have whole := List.take_append_drop (extent CommentState.step .inside rest) rest
    obtain ⟨body, taken⟩ := finished
    rw [taken] at reaches whole ⊢
    refine .closed whole.symm fun front back split => ?_
    -- An end mark further to the front would have stopped the machine there.
    by_contra earlier
    have shorter : (front ++ utf8 "*/").length ≤ (body ++ utf8 "*/").length := by
      rw [List.length_append, List.length_append]
      omega
    obtain ⟨more, same⟩ : front ++ utf8 "*/" <+: body ++ utf8 "*/" :=
      List.prefix_of_prefix_length_le ⟨back, split.symm⟩ ⟨_, whole⟩ shorter
    rw [← same] at reaches
    obtain ⟨rfl, -⟩ := final_of_endMark reaches
    have length := congrArg List.length same
    simp only [List.append_nil, List.length_append] at length
    omega
  · have all := commentExtent_whole finished
    rw [all, List.take_length] at finished ⊢
    refine .endless fun front back split => ?_
    obtain ⟨final, reaches⟩ := exists_final_of_extent all
    rw [split] at reaches
    obtain ⟨rfl, -⟩ := final_of_endMark reaches
    exact finished ⟨front, by rw [split, List.append_nil]⟩

end Comments

/-- The kinds of token that go on to a delimiter. -/
def Kind.isDelimited (kind : Kind) : Bool := kind == .comment || kind == .string || kind == .uri

namespace Lexeme

/-- What a lexeme is that starts with `first`: one that goes on to a delimiter, or another one. -/
inductive Opened (first : UInt8) : Bytes → Lexeme → Prop where
  | comment {tail : Bytes} (slash : first = Byte.slash) :
      Opened first (Byte.asterisk :: tail) ⟨.comment, extent CommentState.step .inside tail + 1⟩
  | string {rest : Bytes} (isQuote : Byte.isQuote first = true) :
      Opened first rest ⟨.string, extent (TextState.stringStep first) .inside rest⟩
  | url {word tail : Bytes} (starts : StartsUrl first word)
      (unquoted : (tail.dropWhile Byte.isWhiteSpace).head?.any Byte.isQuote = false) :
      Opened first (word ++ Byte.openParen :: tail)
        ⟨.uri, word.length + 1 + extent TextState.urlStep .inside tail⟩
  | other {rest : Bytes} {lexeme : Lexeme} (plain : lexeme.kind.isDelimited = false) :
      Opened first rest lexeme

theorem isDelimited_of_spelling {kind : Kind} {spelling : Bytes}
    (spelled : kind.spelling? = some spelling) : kind.isDelimited = false := by
  cases kind <;> first | rfl | exact absurd spelled.symm (Option.some_ne_none _)

theorem ofSlash_opened (rest : Bytes) : Opened Byte.slash rest (ofSlash rest) := by
  by_cases star : rest.head? = some Byte.asterisk
  · obtain ⟨tail, rfl⟩ := List.head?_eq_some_iff.1 star
    exact .comment rfl
  · rw [ofSlash_other star]
    exact .other rfl

theorem ofWord_opened (first : UInt8) (rest : Bytes) : Opened first rest (ofWord first rest) := by
  rcases ofWord_cases first rest with ⟨word, tail, rfl, starts, unquoted⟩ | none
  · rw [ofWord_of_startsUrl starts unquoted]
    exact .url starts unquoted
  · rw [ofWord_name none]
    exact .other rfl

theorem ofFirst_opened (first : UInt8) (rest : Bytes) : Opened first rest (ofFirst first rest) := by
  unfold ofFirst
  split
  next kind found =>
    exact .other (isDelimited_of_spelling (Kind.spelling?_ofPunctuation? first kind found))
  split
  next =>
    unfold ofCaret
    split <;> exact .other rfl
  split
  next =>
    unfold ofColon
    split <;> exact .other rfl
  split
  next =>
    unfold ofHash
    dsimp only
    split <;> exact .other rfl
  split
  next =>
    unfold ofHyphen
    repeat' split
    all_goals exact .other rfl
  split
  next => exact .other rfl
  split
  next slash => exact slash ▸ ofSlash_opened rest
  split
  next isQuote => exact .string isQuote
  split
  next => exact ofWord_opened first rest
  split
  next => exact .other rfl
  next => exact .other rfl

theorem slash_of_comment {first : UInt8} {rest : Bytes}
    (comment : (ofFirst first rest).kind = .comment) : first = Byte.slash := by
  have opened := ofFirst_opened first rest
  generalize ofFirst first rest = lexeme at comment opened
  cases opened with
  | comment slash => exact slash
  | string => exact absurd comment nofun
  | url => exact absurd comment nofun
  | other plain =>
    rw [comment] at plain
    exact absurd plain nofun

theorem isQuote_of_string {first : UInt8} {rest : Bytes}
    (string : (ofFirst first rest).kind = .string) : Byte.isQuote first = true := by
  have opened := ofFirst_opened first rest
  generalize ofFirst first rest = lexeme at string opened
  cases opened with
  | comment => exact absurd string nofun
  | string isQuote => exact isQuote
  | url => exact absurd string nofun
  | other plain =>
    rw [string] at plain
    exact absurd plain nofun

end Lexeme

/-- What it means that a token of the source ends where its kind says. -/
structure Token.EndsRight (source : Bytes) (token : Token) : Prop where
  comment : token.kind = .comment → ∃ rest inner,
    source.drop token.start.offset = utf8 "/*" ++ rest ∧ token.literal = utf8 "/*" ++ inner ∧
      CommentEnds rest inner
  string : token.kind = .string → ∃ quote rest inner, Byte.isQuote quote = true ∧
    source.drop token.start.offset = quote :: rest ∧ token.literal = quote :: inner ∧
      TextEnds quote (· = Byte.newline) rest inner
  url : token.kind = .uri → ∃ word rest inner,
    Bytes.sameIgnoringCase word (utf8 "url") = true ∧
      source.drop token.start.offset = word ++ Byte.openParen :: rest ∧
      token.literal = word ++ Byte.openParen :: inner ∧
      (inner.dropWhile Byte.isWhiteSpace).head?.any Byte.isQuote = false ∧
      TextEnds Byte.closeParen (fun _ => False) rest inner

theorem Located.endsRight {source : Bytes} {token : Token} {back : List Token}
    (located : Located source token back) : token.EndsRight source := by
  cases located with
  | finish => exact ⟨nofun, nofun, nofun⟩
  | @lexeme before rest first lexeme split read =>
    have behind := drop_offset split
    have opened := Lexeme.ofFirst_opened first rest
    rw [read] at opened
    cases opened with
    | @comment tail slash =>
      subst slash
      exact ⟨fun _ => ⟨tail, _, behind, rfl, commentEnds_extent tail⟩, nofun, nofun⟩
    | string isQuote =>
      have ends := stringEnds_extent isQuote rest
      exact ⟨nofun, fun _ => ⟨first, rest, _, isQuote, behind, rfl, ends⟩, nofun⟩
    | @url word tail starts unquoted =>
      have written : first :: (word ++ Byte.openParen :: tail).take
            (word.length + 1 + extent TextState.urlStep .inside tail) =
          first :: word ++ Byte.openParen :: tail.take (extent TextState.urlStep .inside tail) :=
        congrArg (first :: ·) (Lexeme.taken_url _)
      exact ⟨nofun, nofun, fun _ => ⟨first :: word, tail, _, starts.url, behind, written,
        Lexeme.unquoted_take _ unquoted, urlEnds_extent tail⟩⟩
    | other plain =>
      have never {kind : Kind} (delimited : kind.isDelimited = true) : lexeme.kind ≠ kind := by
        rintro rfl
        exact Bool.false_ne_true (plain.symm.trans delimited)
      exact ⟨fun is => absurd is (never rfl), fun is => absurd is (never rfl),
        fun is => absurd is (never rfl)⟩

/-- Comments, strings and urls end where the language says, in every source. -/
theorem tokenize_endsRight (source : Bytes) :
    ∀ token ∈ tokenize source, token.EndsRight source := by
  intro token member
  obtain ⟨front, back, split⟩ := List.append_of_mem member
  exact (tokenize_located split).endsRight

/-- A comment whose opening holds no end, a string broken off behind an escaped line feed, and a
url with an escaped parenthesis that runs to the end. -/
theorem tokenize_endsRight_escapes :
    ∃ source comment string url, tokenize source = [comment, string, url, .endOfInput ⟨3, 9, 19⟩] ∧
      (comment = ⟨.comment, utf8 "/*/ */", ⟨1, 1, 0⟩⟩ ∧ comment.EndsRight source) ∧
      (string = ⟨.string, utf8 "'a\\\n", ⟨1, 7, 6⟩⟩ ∧ string.EndsRight source) ∧
      url = ⟨.uri, utf8 "uRL(\\)a\\", ⟨3, 1, 11⟩⟩ ∧ url.EndsRight source := by
  have tokens : tokenize (utf8 "/*/ */'a\\\n\nuRL(\\)a\\") =
      [⟨.comment, utf8 "/*/ */", ⟨1, 1, 0⟩⟩, ⟨.string, utf8 "'a\\\n", ⟨1, 7, 6⟩⟩,
        ⟨.uri, utf8 "uRL(\\)a\\", ⟨3, 1, 11⟩⟩, .endOfInput ⟨3, 9, 19⟩] := by
    decide +kernel
  have all := tokenize_endsRight (utf8 "/*/ */'a\\\n\nuRL(\\)a\\")
  rw [tokens] at all
  exact ⟨_, _, _, _, tokens, ⟨rfl, all _ (by simp)⟩, ⟨rfl, all _ (by simp)⟩, rfl,
    all _ (by simp)⟩

end CssSyntax

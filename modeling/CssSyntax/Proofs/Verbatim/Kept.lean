import CssSyntax.Grammar.Container
import CssSyntax.Grammar.DeclarationRule
import CssSyntax.Proofs.Parser.Quiet
import CssSyntax.Proofs.Parser.Spans
import CssSyntax.Proofs.Verbatim.Rejoin

/-! Where a parser keeps text as written: attribute tests, the arguments of pseudo classes, values
of features and page selectors. Read as a source, such text has the tokens that the parser took for
it. -/

namespace CssSyntax

open Reading Verbatim

/-- What a text is cut into, by kind and bytes. -/
def contents (text : Bytes) : List (Kind × Bytes) := (tokenize text).dropLast.map Token.content

theorem contents_eq {text : Bytes} {found : List (Kind × Bytes)}
    (tokens : (tokenize text).map Token.content = found ++ [(.eof, [])]) :
    contents text = found := by
  rw [contents, List.map_dropLast, tokens, List.dropLast_concat]

namespace Span

theorem inside_stops (stop : Token → Bool) (opened : Nat) (tokens : List Token) :
    ∀ next ∈ (tokens.drop (inside stop opened tokens)).head?,
      next.isStructural = true ∨ stop next = true ∨ next.kind = .closeParen := by
  fun_induction inside stop opened tokens with
  | case1 => simp
  | case2 opened token rest structural =>
    exact fun next first => .inl (Option.some.inj first ▸ structural)
  | case3 opened token rest plain stops =>
    exact fun next first => .inr (.inl (Option.some.inj first ▸ (Bool.and_eq_true_iff.1 stops).2))
  | case4 opened token rest plain going opens ih => exact ih
  | case5 token rest plain closes going =>
    exact fun next first => .inr (.inr (Option.some.inj first ▸ closes))
  | case6 opened token rest plain going closes deeper ih => exact ih
  | case7 opened token rest plain going notOpen notClose ih => exact ih

end Span

namespace Grammar

/-- The text that a reading keeps of the tokens it takes, where nothing in the text runs on into
what stands there for a gap of the source. -/
inductive KeptApart (parser : Parser) : Bytes → List Token → Prop where
  /-- An attribute test without a problem. No gap is kept before its closing bracket. -/
  | test (opens : parser.current.kind = .openBracket)
      (clean : attributeAtom.found parser = [])
      (apart : Apart (attributeAtom.taken parser).dropLast)
      (last : ∀ token ∈ (kept (attributeAtom.taken parser).dropLast).getLast?,
        token.takes 0x5d = false) :
      KeptApart parser (attributeAtom parser).1.value (attributeAtom.taken parser)
  /-- A pseudo class with its argument, without a problem. No gap is kept behind its name. -/
  | pseudo {name : Token} {argument : List Token} {atom : SelectorAtom}
      (opens : parser.current.kind = .colon ∨ parser.current.kind = .doubleColon)
      (clean : (pseudoAtom parser.current).found parser = [])
      (taken : (pseudoAtom parser.current).taken parser = parser.current :: name :: argument)
      (given : argument ≠ [])
      (apart : Apart argument)
      (free : name.takes Byte.openParen = false)
      (url : name.isWord Word.urlWord = true →
        ∀ first ∈ (kept argument.tail).head?, first.kind = .string)
      (found : (pseudoAtom parser.current parser).1 = [atom]) :
      KeptApart parser atom.value (parser.current :: name :: argument)
  /-- The value of a media feature. -/
  | media (apart : Apart ((featureValue fun _ => false).taken parser)) :
      KeptApart parser ((featureValue fun _ => false) parser).1
        ((featureValue fun _ => false).taken parser)
  /-- The value of a container feature. Where an `and` touches it, it does not end in a color. -/
  | container (apart : Apart (containerValue.taken parser))
      (edge : ∀ last ∈ (kept (containerValue.taken parser)).getLast?,
        ∀ next ∈ (containerValue parser).2.ahead.head?,
          isAnd next = true → last.stop = next.start.offset →
            ¬(containerValue parser).1.EndsInColor) :
      KeptApart parser (containerValue parser).1 (containerValue.taken parser)
  /-- The name of a page and its pseudo pages. -/
  | page {room : Nat} {text : Bytes} {declarations : List Declaration}
      (found : (page room parser).1 = some (.page (some text) declarations))
      (apart : Apart (parser.ahead.takeWhile fun token => !token.isStructural)) :
      KeptApart parser text (parser.ahead.takeWhile fun token => !token.isStructural)

section Texts

variable {source text : Bytes} {position : Position} {run back : List Token}

theorem tokensFrom_real (position : Position) (source : Bytes) :
    ∀ token ∈ (tokensFrom position source).dropLast, token.kind ≠ .eof ∧ token.Spelled := by
  intro token member
  have alone := tokensFrom_alone token member
  exact ⟨Cut.kind_ne_eof alone, Cut.spelled alone token.start⟩

theorem literal_of_spelling {token : Token} {kind : Kind} {spelling : Bytes}
    (spelled : token.Spelled) (is : token.kind = kind) (fixed : kind.spelling? = some spelling) :
    token.literal = spelling :=
  spelled.fixed spelling ((congrArg Kind.spelling? is).trans fixed)

/-- Neither a structural token nor a closing parenthesis goes on with a name. -/
theorem broken_of_stop {token : Token} (spelled : token.Spelled) (real : token.kind ≠ .eof)
    (stops : token.isStructural = true ∨ token.kind = .closeParen) : token.literal.Broken := by
  have fixed {kind : Kind} {spelling : Bytes} (is : token.kind = kind)
      (spells : kind.spelling? = some spelling) (broken : spelling.Broken) :
      token.literal.Broken :=
    (literal_of_spelling spelled is spells).symm ▸ broken
  have single {byte : UInt8} (free : Byte.isIdentPart byte = false) : Bytes.Broken [byte] :=
    fun other is => Option.some.inj is ▸ free
  simp only [Token.isStructural, Bool.or_eq_true, beq_iff_eq] at stops
  rcases stops with (((opens | closes) | ends) | ended) | closes
  · exact fixed opens rfl (single rfl)
  · exact fixed closes rfl (single rfl)
  · exact fixed ends rfl (single rfl)
  · exact absurd ended real
  · exact fixed closes rfl (single rfl)

theorem kind_ne_string_of_stop {token : Token}
    (stops : token.isStructural = true ∨ token.kind = .closeParen) : token.kind ≠ .string := by
  intro is
  rw [Token.isStructural, is] at stops
  exact absurd stops (by decide)

/-- The text of a run that nothing is put behind. -/
theorem tokensFrom_verbatim (place : Position)
    (split : (tokensFrom position source).dropLast = run ++ back) (apart : Apart run)
    (ends : Ends run back [] (verbatim run)) :
    (tokensFrom place (verbatim run)).map Token.content =
      (kept run).map Token.content ++ [(.eof, [])] := by
  have all := tokensFrom_join place split apart ends
    (by rw [List.append_nil]; exact List.suffix_rfl)
  rw [List.append_nil] at all
  refine all.trans (congrArg _ ?_)
  rw [tokenize, tokensFrom_nil]
  rfl

theorem contents_verbatim (split : (tokensFrom position source).dropLast = run ++ back)
    (apart : Apart run) (ends : Ends run back [] (verbatim run)) :
    contents (verbatim run) = (kept run).map Token.content :=
  contents_eq (tokensFrom_verbatim .start split apart ends)

/-- The stretch of a feature value, where nothing but an `and` that touches it may go on with a
name. -/
theorem feature_contents {stop : Token → Bool}
    (split : (tokensFrom position source).dropLast = run)
    (names : ∀ token, stop token = true → token.kind = .ident)
    (apart : Apart (run.take (Span.inside stop 0 run)))
    (edge : ∀ last ∈ (kept (run.take (Span.inside stop 0 run))).getLast?,
      ∀ next ∈ (run.drop (Span.inside stop 0 run)).head?, stop next = true →
        last.stop = next.start.offset →
          ¬(verbatim (run.take (Span.inside stop 0 run))).EndsInColor) :
    contents (verbatim (run.take (Span.inside stop 0 run))) =
      (kept (run.take (Span.inside stop 0 run))).map Token.content := by
  have real := tokensFrom_real position source
  rw [split] at real
  have parts := List.take_append_drop (Span.inside stop 0 run) run
  have stops := Span.inside_stops stop 0 run
  have behind {next : Token} (first : next ∈ (run.drop (Span.inside stop 0 run)).head?) :
      next.kind ≠ .eof ∧ next.Spelled :=
    real next (List.mem_of_mem_drop (List.mem_of_mem_head? first))
  refine contents_verbatim (split.trans parts.symm) apart ⟨.inl rfl, fun _ _ => nofun, ?_, ?_⟩
  · by_cases color : (verbatim (run.take (Span.inside stop 0 run))).EndsInColor
    · refine .inl fun last member next first touches => ?_
      rcases stops next first with structural | stopped | closes
      · exact broken_of_stop (behind first).2 (behind first).1 (.inl structural)
      · exact absurd color (edge last member next first stopped touches)
      · exact broken_of_stop (behind first).2 (behind first).1 (.inr closes)
    · exact .inr ⟨rfl, color⟩
  · intro token _ _ next first
    rcases stops next first with structural | stopped | closes
    · exact kind_ne_string_of_stop (.inl structural)
    · exact (names next stopped).trans_ne nofun
    · exact kind_ne_string_of_stop (.inr closes)

theorem page_contents (split : (tokensFrom position source).dropLast = run)
    (apart : Apart (run.takeWhile fun token => !token.isStructural)) :
    contents (verbatim (run.takeWhile fun token => !token.isStructural)) =
      (kept (run.takeWhile fun token => !token.isStructural)).map Token.content := by
  have real := tokensFrom_real position source
  rw [split] at real
  have parts := List.takeWhile_append_dropWhile (p := fun token => !token.isStructural) (l := run)
  have stops {next : Token}
      (first : next ∈ (run.dropWhile fun token => !token.isStructural).head?) :
      next.isStructural = true := by
    have refused := List.head?_dropWhile_not (fun token : Token => !token.isStructural) run
    rw [first] at refused
    simpa using refused
  refine contents_verbatim (split.trans parts.symm) apart ⟨.inl rfl, fun _ _ => nofun, ?_, ?_⟩
  · refine .inl fun _ _ next first _ => ?_
    have among := real next ((List.dropWhile_suffix _).subset (List.mem_of_mem_head? first))
    exact broken_of_stop among.2 among.1 (.inl (stops first))
  · exact fun _ _ _ next first => kind_ne_string_of_stop (.inl (stops first))

theorem tokenize_closeBracket :
    (tokenize (utf8 "]")).map Token.content = [(.closeBracket, utf8 "]"), (.eof, [])] := by
  have found : Cut.ofBytes? (utf8 "]") = some ⟨[], .closeBracket, utf8 "]", []⟩ := rfl
  rw [tokenize, tokensFrom_cut found, tokensFrom_nil]
  rfl

theorem attribute_contents {test : List Token} {closing : Token}
    (split : (tokensFrom position source).dropLast = test ++ closing :: back)
    (closes : closing.kind = .closeBracket) (apart : Apart test)
    (last : ∀ token ∈ (kept test).getLast?, token.takes 0x5d = false) :
    contents (utf8 "[" ++ verbatim test ++ utf8 "]") =
      (.openBracket, utf8 "[") :: (kept test).map Token.content ++
        [(.closeBracket, utf8 "]")] := by
  have real := tokensFrom_real position source
  rw [split] at real
  have bracket := (real closing (List.mem_append_right test List.mem_cons_self)).2
  have ends : Ends test (closing :: back) (utf8 "]") (verbatim test ++ utf8 "]") := by
    refine ⟨.inr ⟨rfl, List.cons_ne_nil _ _⟩, fun token member byte is => ?_,
      .inl fun _ _ next first _ => ?_, fun _ _ _ next first => ?_⟩
    · obtain rfl := Option.some.inj is
      exact last token member
    · obtain rfl := Option.some.inj first
      rw [literal_of_spelling bracket closes rfl]
      exact fun byte is => Option.some.inj is ▸ rfl
    · obtain rfl := Option.some.inj first
      exact closes.trans_ne nofun
  have found : Cut.ofBytes? (utf8 "[" ++ (verbatim test ++ utf8 "]")) =
      some ⟨[], .openBracket, utf8 "[", verbatim test ++ utf8 "]"⟩ := rfl
  have inner (place : Position) := tokensFrom_join place split apart ends List.suffix_rfl
  apply contents_eq
  rw [List.append_assoc, tokenize, tokensFrom_cut found, List.map_cons]
  dsimp only
  change _ :: (tokensFrom _ (join (kept test) ++ utf8 "]")).map Token.content = _
  rw [inner, tokenize_closeBracket]
  simp [Token.content]

theorem join_cons (token : Token) (tokens : List Token) :
    ∃ more, join (token :: tokens) = token.literal ++ more := by
  cases tokens with
  | nil => exact ⟨[], (List.append_nil _).symm⟩
  | cons next rest => exact ⟨_, List.append_assoc ..⟩

theorem join_concat (tokens : List Token) (last : Token) :
    ∃ front, join (tokens ++ [last]) = front ++ last.literal := by
  induction tokens with
  | nil => exact ⟨[], rfl⟩
  | cons token rest ih =>
    obtain ⟨front, is⟩ := ih
    cases rest with
    | nil => exact ⟨_, rfl⟩
    | cons next rest =>
      refine ⟨token.literal ++ gap token next ++ front, ?_⟩
      rw [List.cons_append, List.cons_append, join, List.append_assoc _ front, ← is]
      rfl

/-- A color ends with a digit. -/
theorem not_endsInColor {front : Bytes} {byte : UInt8} (plain : Byte.isHexDigit byte = false) :
    ¬Bytes.EndsInColor (front ++ [byte]) := by
  rintro ⟨digits, ⟨before, split⟩, _, hex, count, _⟩
  rcases List.eq_nil_or_concat digits with rfl | ⟨init, last, rfl⟩
  · exact absurd count (by decide)
  · rw [List.concat_eq_append] at split hex
    have whole : before ++ Byte.hash :: init ++ [last] = front ++ [byte] := by
      rw [← split]
      simp
    obtain ⟨-, same⟩ := List.append_inj' whole rfl
    have digit := hex last (List.mem_append_right init (List.mem_singleton_self last))
    rw [(List.cons.inj same).1] at digit
    exact Bool.false_ne_true (plain.symm.trans digit)

/-- A string that comes first in a parenthesis keeps it from opening a url. -/
theorem opensUrl_verbatim {opening first : Token} {inner : List Token} (spelled : opening.Spelled)
    (opens : opening.kind = .openParen) (is : (kept inner).head? = some first)
    (quote : first.literal.head?.any Byte.isQuote = true) :
    Lexeme.opensUrl (verbatim (opening :: inner)) = false := by
  have quoted : (behind opening.stop inner).quoted = true := by
    obtain ⟨rest, all⟩ := List.head?_eq_some_iff.1 is
    obtain ⟨more, text⟩ := join_cons first rest
    unfold behind
    rw [all]
    dsimp only
    rw [text]
    split
    · exact Bytes.quoted_append quote more
    · exact Bytes.quoted_append quote more
  unfold verbatim
  rw [join_kept_cons (opens.trans_ne nofun), literal_of_spelling spelled opens rfl]
  change (!(behind opening.stop inner).quoted) = false
  rw [quoted]
  rfl

theorem replaces_argument {cut : Cut} {place : Position} {opening : Token} {inner : List Token}
    (split : (tokensFrom place cut.rest).dropLast = opening :: inner ++ back)
    (spelled : opening.Spelled) (opens : opening.kind = .openParen) (named : cut.kind = .ident)
    (free : cut.kind.takes cut.literal Byte.openParen = false)
    (url : Bytes.sameIgnoringCase cut.literal (utf8 "url") = true →
      Lexeme.opensUrl (verbatim (opening :: inner)) = false) :
    Replaces cut.kind cut.literal cut.rest (verbatim (opening :: inner)) := by
  obtain ⟨more, text⟩ : ∃ more, verbatim (opening :: inner) = Byte.openParen :: more := by
    unfold verbatim
    rw [join_kept_cons (opens.trans_ne nofun), literal_of_spelling spelled opens rfl]
    exact ⟨_, rfl⟩
  refine ⟨fun byte first => ?_, fun digit front _ => ?_, fun hash => ?_, fun _ word opens => ?_,
    fun none => ?_⟩
  · rw [text] at first
    obtain rfl := Option.some.inj first
    exact .inr ⟨rfl, free⟩
  · obtain ⟨rest, is⟩ := front
    rw [text] at is
    exact absurd (List.cons.inj is).1 (by decide)
  · exact absurd (named.symm.trans hash) nofun
  · exact absurd ((url word).symm.trans opens) Bool.false_ne_true
  · rw [none, tokensFrom_nil] at split
    exact absurd split nofun

theorem colons_cut {kind : Kind} {literal rest : Bytes}
    (marks : kind = .colon ∧ literal = utf8 ":" ∨ kind = .doubleColon ∧ literal = utf8 "::")
    (other : rest.head? ≠ some 0x3a) :
    Cut.ofBytes? (literal ++ rest) = some ⟨[], kind, literal, rest⟩ := by
  rcases marks with ⟨rfl, rfl⟩ | ⟨rfl, rfl⟩
  · have single : Lexeme.ofFirst 0x3a rest = ⟨.colon, 0⟩ := if_neg other
    change some (Cut.mk _ (Lexeme.ofFirst 0x3a rest).kind
      (0x3a :: rest.take (Lexeme.ofFirst 0x3a rest).extra)
      (rest.drop (Lexeme.ofFirst 0x3a rest).extra)) = _
    rw [single]
    rfl
  · rfl

theorem quote_of_string {token : Token} (member : token ∈ (tokensFrom position source).dropLast)
    (is : token.kind = .string) : token.literal.head?.any Byte.isQuote = true := by
  obtain ⟨first, rest, -, kind, literal, -⟩ := Cut.of_found (tokensFrom_alone token member)
  dsimp only at kind literal
  rw [literal]
  exact Lexeme.isQuote_of_string (kind.symm.trans is)

theorem head?_of_ident {token : Token} (member : token ∈ (tokensFrom position source).dropLast)
    (is : token.kind = .ident) : token.literal.head? ≠ some 0x3a := by
  obtain ⟨first, rest, -, kind, literal, -⟩ := Cut.of_found (tokensFrom_alone token member)
  dsimp only at kind literal
  rw [literal]
  intro colon
  obtain rfl : first = 0x3a := Option.some.inj colon
  rw [is] at kind
  change Kind.ident = (Lexeme.ofColon rest).kind at kind
  unfold Lexeme.ofColon at kind
  split at kind <;> exact absurd kind nofun

theorem pseudo_contents {colons name opening closing : Token} {inner : List Token}
    (split : (tokensFrom position source).dropLast =
      colons :: name :: (opening :: inner ++ [closing] ++ back))
    (marks : colons.kind = .colon ∨ colons.kind = .doubleColon) (named : name.kind = .ident)
    (opens : opening.kind = .openParen) (closes : closing.kind = .closeParen)
    (apart : Apart (opening :: inner ++ [closing])) (free : name.takes Byte.openParen = false)
    (url : name.isWord Word.urlWord = true →
      ∀ first ∈ (kept (inner ++ [closing])).head?, first.kind = .string) :
    contents (colons.literal ++ name.literal ++ verbatim (opening :: inner ++ [closing])) =
      (kept (colons :: name :: (opening :: inner ++ [closing]))).map Token.content := by
  have real := tokensFrom_real position source
  have words {token : Token} := @head?_of_ident source position token
  rw [split] at real words
  obtain ⟨_, -, -, left⟩ := tokensFrom_split split
  obtain ⟨cut, found, rfl, rest⟩ := tokensFrom_split left
  have single : kept [closing] = [closing] := kept_cons (closes.trans_ne nofun) []
  have openSpelled := (real opening (by simp)).2
  have closeSpelled := (real closing (by simp)).2
  have replaces : Replaces cut.kind cut.literal cut.rest
      (verbatim (opening :: inner ++ [closing])) :=
    replaces_argument rest openSpelled opens named free fun word => by
      have some : kept (inner ++ [closing]) ≠ [] := by simp [kept_append, single]
      obtain ⟨first, others, is⟩ := List.exists_cons_of_ne_nil some
      have next : (kept (inner ++ [closing])).head? = Option.some first := by rw [is]; rfl
      have among : first ∈ opening :: inner ++ [closing] :=
        List.mem_cons_of_mem _ (List.mem_of_mem_filter (List.mem_of_mem_head? next))
      have within := List.mem_append_left back among
      rw [← rest] at within
      have isUrl := Bool.and_eq_true_iff.2 ⟨beq_iff_eq.2 named, word⟩
      have quote := quote_of_string within (url isUrl first next)
      exact opensUrl_verbatim openSpelled opens next quote
  have ends : Ends (opening :: inner ++ [closing]) back []
      (verbatim (opening :: inner ++ [closing])) := by
    refine ⟨.inl rfl, fun _ _ => nofun, .inr ⟨rfl, ?_⟩, fun token last is => ?_⟩
    · obtain ⟨front, text⟩ := join_concat (kept (opening :: inner)) closing
      rw [literal_of_spelling closeSpelled closes rfl] at text
      rw [verbatim, kept_append, single, text]
      exact not_endsInColor rfl
    · rw [List.getLast?_concat] at last
      obtain rfl := Option.some.inj last
      exact absurd (closes.symm.trans is) nofun
  have argument (place : Position) := tokensFrom_verbatim place rest apart ends
  have other : (cut.literal ++ verbatim (opening :: inner ++ [closing])).head? ≠ some 0x3a := by
    rw [List.head?_append_of_ne_nil _ (Cut.literal_ne_nil found)]
    exact words (by simp) named
  have plain : colons.kind ≠ .comment := marks.elim (·.trans_ne nofun) (·.trans_ne nofun)
  have spelled := (real colons (by simp)).2
  have written : colons.kind = .colon ∧ colons.literal = utf8 ":" ∨
      colons.kind = .doubleColon ∧ colons.literal = utf8 "::" :=
    marks.imp (fun is => ⟨is, literal_of_spelling spelled is rfl⟩)
      fun is => ⟨is, literal_of_spelling spelled is rfl⟩
  apply contents_eq
  rw [List.append_assoc, tokenize, tokensFrom_cut (colons_cut written other)]
  dsimp only
  rw [tokensFrom_cut (Cut.replace found (named.trans_ne nofun) replaces)]
  dsimp only
  rw [List.map_cons, List.map_cons, argument, kept_cons plain, kept_cons (named.trans_ne nofun)]
  rfl

end Texts

section Readings

variable {tokens : List Token} {parser : Parser}

open Quietly

theorem take_splits (span : List Token → Nat) :
    (take span).Quietly tokens parser fun found after => parser.ahead = found ++ after.ahead :=
  fun _ _ => (List.take_append_drop _ _).symm

theorem attributeAtom_splits (opens : parser.current.kind = .openBracket) :
    attributeAtom.Quietly tokens parser fun atom after => ∃ test closing,
      parser.ahead = parser.current :: test ++ [closing] ++ after.ahead ∧
        closing.kind = .closeBracket ∧ atom.value = utf8 "[" ++ verbatim test ++ utf8 "]" := by
  refine after (bind (take_splits _) fun test middle split => expect fun closes => pure ?_)
  refine ⟨test, middle.current, ?_, closes, rfl⟩
  have behind : (parser.skip 1).ahead = test ++ middle.ahead := split
  rw [Parser.ahead_eq_skip (opens.trans_ne nofun), behind,
    Parser.ahead_eq_skip (closes.trans_ne nofun)]
  simp

theorem pseudoArgument_splits (opens : parser.current.kind = .openParen) :
    pseudoArgument.Quietly tokens parser fun bytes after => ∃ inner closing,
      parser.ahead = parser.current :: inner ++ [closing] ++ after.ahead ∧
        closing.kind = .closeParen ∧ bytes = verbatim (parser.current :: inner ++ [closing]) := by
  refine Quietly.current (after (bind (take_splits _) fun inner middle split => ?_))
  refine Quietly.current (expect fun closes => pure ⟨inner, middle.current, ?_, closes, rfl⟩)
  have behind : (parser.skip 1).ahead = inner ++ middle.ahead := split
  rw [Parser.ahead_eq_skip (opens.trans_ne nofun), behind,
    Parser.ahead_eq_skip (closes.trans_ne nofun)]
  simp

theorem optionalArgument_splits :
    optionalArgument.Quietly tokens parser fun bytes after => ∃ argument,
      parser.ahead = argument ++ after.ahead ∧ bytes = verbatim argument ∧
        (argument = [] ∨ ∃ opening inner closing, argument = opening :: inner ++ [closing] ∧
          opening.kind = .openParen ∧ closing.kind = .closeParen) := by
  refine look (ite (fun opens => ?_) fun _ => pure ⟨[], rfl, rfl, .inl rfl⟩)
  have is := currentIs_iff.1 opens
  refine (pseudoArgument_splits is).mono fun bytes after ⟨inner, closing, split, closes, text⟩ => ?_
  exact ⟨_, split, text, .inr ⟨_, inner, closing, rfl, is, closes⟩⟩

theorem pseudoAtom_splits (notEnd : parser.current.kind ≠ .eof) :
    (pseudoAtom parser.current).Quietly tokens parser fun atoms after => ∃ name argument,
      parser.ahead = parser.current :: name :: argument ++ after.ahead ∧ name.kind = .ident ∧
        atoms = [⟨.pseudo, parser.current.literal ++ name.literal ++ verbatim argument⟩] ∧
        (argument = [] ∨ ∃ opening inner closing, argument = opening :: inner ++ [closing] ∧
          opening.kind = .openParen ∧ closing.kind = .closeParen) := by
  refine after (Quietly.current (ite (fun named => after ?_) fun _ => report))
  refine returning optionalArgument_splits fun bytes last ⟨argument, split, text, shape⟩ => ?_
  refine ⟨(parser.skip 1).current, argument, ?_, named, by rw [text]; rfl, shape⟩
  have isName : (parser.skip 1).current.kind = .ident := named
  have behind : ((parser.skip 1).skip 1).ahead = argument ++ last.ahead := split
  rw [Parser.ahead_eq_skip notEnd, Parser.ahead_eq_skip (isName.trans_ne nofun), behind]
  rfl

theorem featureValue_taken (stop : Token → Bool) (parser : Parser) :
    (featureValue stop).taken parser = parser.ahead.take (Span.inside stop 0 parser.ahead) :=
  taken_eq (List.take_append_drop _ _)

end Readings

/-- Text that is kept as written is cut into the tokens that it was kept for, each with its kind and
its bytes, less the comments. That holds of attribute tests, pseudo classes with their arguments,
feature values and page selectors, wherever a parser reads them in a source. -/
theorem keptApart_contents {source text : Bytes} {parser : Parser} {tokens : List Token}
    (within : parser.ahead <:+ (tokenize source).dropLast) (keeps : KeptApart parser text tokens) :
    contents text = (kept tokens).map Token.content := by
  obtain ⟨position, rest, ahead⟩ := exists_tokensFrom_of_suffix within
  cases keeps with
  | test opens clean apart last =>
    obtain ⟨test, closing, split, closes, value⟩ :=
      attributeAtom_splits opens List.suffix_rfl clean
    rw [taken_eq split.symm] at apart last ⊢
    rw [List.dropLast_concat] at apart last
    have all := ahead.trans split
    have real := tokensFrom_real position rest
    rw [all] at real
    obtain ⟨_, -, -, left⟩ := tokensFrom_split (all.trans (by simp) :
      _ = parser.current :: (test ++ closing :: (attributeAtom parser).2.ahead))
    have inner := attribute_contents left closes (apart_of_cons apart) fun token member =>
      last token (getLast?_kept_cons member)
    have opening := literal_of_spelling (real parser.current (by simp)).2 opens rfl
    have ending := literal_of_spelling (real closing (by simp)).2 closes rfl
    have first : parser.current.content = (.openBracket, utf8 "[") := by
      rw [Token.content, opens, opening]
    have final : closing.content = (.closeBracket, utf8 "]") := by
      rw [Token.content, closes, ending]
    rw [value, inner, kept_append, kept_cons (opens.trans_ne nofun),
      kept_cons (closes.trans_ne nofun), List.map_append, List.map_cons, List.map_cons, first,
      final]
    rfl
  | @pseudo name argument atom opens clean taken given apart free url found =>
    have notEnd : parser.current.kind ≠ .eof :=
      opens.elim (·.trans_ne nofun) (·.trans_ne nofun)
    obtain ⟨other, rest, split, named, atoms, shape⟩ :=
      pseudoAtom_splits notEnd List.suffix_rfl clean
    obtain ⟨-, behind⟩ := List.cons.inj (taken.symm.trans (taken_eq split.symm))
    obtain ⟨rfl, rfl⟩ := List.cons.inj behind
    obtain rfl := (List.cons.inj (found.symm.trans atoms)).1
    obtain ⟨opening, inner, closing, rfl, isOpen, closes⟩ := shape.resolve_left given
    exact pseudo_contents (ahead.trans split) opens named isOpen closes apart free url
  | media apart =>
    rw [featureValue_taken] at apart ⊢
    exact feature_contents ahead nofun apart fun _ _ _ _ => nofun
  | container apart edge =>
    unfold containerValue at apart edge ⊢
    rw [featureValue_taken] at apart edge ⊢
    refine feature_contents ahead (fun token isAnd => ?_) apart edge
    exact beq_iff_eq.1 (Bool.and_eq_true_iff.1 isAnd).1
  | @page room _ declarations found apart =>
    obtain ⟨block, -, same⟩ := Option.map_eq_some_iff.1 found
    have selector : pageSelector (parser.ahead.take
        (Span.before Token.isStructural parser.ahead)) = some text := (Node.page.inj same).1
    rw [take_before, pageSelector] at selector
    split at selector
    next => exact absurd selector.symm (Option.some_ne_none text)
    next =>
      obtain rfl := Option.some.inj selector
      exact page_contents ahead apart

/-- A test with a gap at each bracket, an escape that touches the next token, and a comment. -/
theorem keptApart_contents_test :
    ∃ source parser, source = utf8 "[ a\\41=/**/\n\"b\\\nc\" ]" ∧
      parser = Parser.ofTokens .standard (tokenize source) ∧
      contents (attributeAtom parser).1.value =
        (kept (attributeAtom.taken parser)).map Token.content := by
  obtain ⟨source, text⟩ : ∃ source, source = utf8 "[ a\\41=/**/\n\"b\\\nc\" ]" := ⟨_, rfl⟩
  obtain ⟨parser, is⟩ : ∃ parser, parser = Parser.ofTokens .standard (tokenize source) := ⟨_, rfl⟩
  have within : parser.ahead <:+ (tokenize source).dropLast := by
    rw [is, text]
    decide +kernel
  have opens : parser.current.kind = .openBracket := by
    rw [is, text]
    decide +kernel
  have clean : attributeAtom.found parser = [] := by
    rw [is, text]
    decide +kernel
  have apart : Apart (attributeAtom.taken parser).dropLast := by
    rw [is, text]
    decide +kernel
  have last : ∀ token ∈ (kept (attributeAtom.taken parser).dropLast).getLast?,
      token.takes 0x5d = false := by
    rw [is, text]
    decide +kernel
  exact ⟨source, parser, text, is, keptApart_contents within (.test opens clean apart last)⟩

/-- Text is kept for which this fails: an escape takes in the space for the line feed behind it, and
an unclosed string what is behind it. A name takes in its argument as a url, and without the word
that touches them digits are those of a color. -/
theorem kept_runs_on :
    (∃ parser, parser = Parser.ofTokens .standard (tokenize (utf8 "[\\31\na]")) ∧
      attributeAtom.found parser = [] ∧ contents (attributeAtom parser).1.value ≠
        (kept (attributeAtom.taken parser)).map Token.content) ∧
    (∃ parser, parser = Parser.ofTokens .standard (tokenize (utf8 "[a=\"b\n]")) ∧
      attributeAtom.found parser = [] ∧ contents (attributeAtom parser).1.value ≠
        (kept (attributeAtom.taken parser)).map Token.content) ∧
    (∃ parser, parser = Parser.ofTokens .standard (tokenize (utf8 ":url (a)")) ∧
      (pseudoAtom parser.current).found parser = [] ∧
      (pseudoAtom parser.current parser).1.map (fun atom => contents atom.value) ≠
        [(kept ((pseudoAtom parser.current).taken parser)).map Token.content]) ∧
    ∃ parser, parser = (Parser.ofTokens .standard (tokenize (utf8 "(a:#123and (b:c))"))).skip 3 ∧
      contents (containerValue parser).1 ≠
        (kept (containerValue.taken parser)).map Token.content := by
  refine ⟨⟨_, rfl, ?_, ?_⟩, ⟨_, rfl, ?_, ?_⟩, ⟨_, rfl, ?_, ?_⟩, _, rfl, ?_⟩
  all_goals decide +kernel

end Grammar

end CssSyntax

import CssSyntax.Proofs.Relocation.Append
import CssSyntax.Proofs.Token.Seam
import CssSyntax.Report

/-! Stylesheets compose. Where a source is parsed without a problem and does not end in a comment, a
source put behind it is parsed as if it stood alone, and its problems are found where its bytes
now are. -/

namespace CssSyntax

namespace Position

/-- The place in a source that starts at `base` and not at the top. Columns move on the first line
only. -/
def movedTo (position base : Position) : Position :=
  ⟨base.line + (position.line - 1),
    if position.line = 1 then base.column + (position.column - 1) else position.column,
    base.offset + position.offset⟩

/-- Lines and columns count from 1. -/
structure Counted (position : Position) : Prop where
  line : 1 ≤ position.line
  column : 1 ≤ position.column

theorem start_counted : start.Counted := ⟨Nat.le_refl 1, Nat.le_refl 1⟩

theorem start_movedTo (base : Position) : start.movedTo base = base := rfl

variable {position : Position}

theorem Counted.next (counted : position.Counted) (byte : UInt8) :
    (position.next byte).Counted := by
  unfold Position.next
  split
  next => exact ⟨Nat.le_add_left 1 _, Nat.le_refl 1⟩
  next => exact ⟨counted.line, Nat.le_add_left 1 _⟩

theorem Counted.after (counted : position.Counted) (bytes : Bytes) :
    (position.after bytes).Counted := by
  induction bytes generalizing position with
  | nil => exact counted
  | cons byte rest ih => exact ih (counted.next byte)

theorem next_movedTo (base : Position) (counted : position.Counted) (byte : UInt8) :
    (position.next byte).movedTo base = (position.movedTo base).next byte := by
  obtain ⟨line, column⟩ := counted
  unfold Position.next
  split
  next =>
    -- A line feed starts a later line, whose columns stay.
    have later : position.line + 1 ≠ 1 := by omega
    simp only [movedTo, if_neg later, mk.injEq, true_and]
    omega
  next =>
    simp only [movedTo, mk.injEq, true_and]
    split <;> omega

theorem after_movedTo (base : Position) (counted : position.Counted) (bytes : Bytes) :
    (position.after bytes).movedTo base = (position.movedTo base).after bytes := by
  induction bytes generalizing position with
  | nil => rfl
  | cons byte rest ih =>
    have later := ih (counted.next byte)
    rw [next_movedTo base counted byte] at later
    exact later

end Position

def Token.movedTo (token : Token) (base : Position) : Token :=
  { token with start := token.start.movedTo base }

def Diagnostic.movedTo (diagnostic : Diagnostic) (base : Position) : Diagnostic :=
  { diagnostic with
    line := base.line + (diagnostic.line - 1)
    column := if diagnostic.line = 1 then base.column + (diagnostic.column - 1)
      else diagnostic.column }

theorem Diagnostic.ofToken_movedTo (problem : Problem) (token : Token) (base : Position) :
    (ofToken problem token).movedTo base = ofToken problem (token.movedTo base) := rfl

theorem tokensFrom_movedTo (base : Position) {position : Position} (counted : position.Counted)
    (source : Bytes) :
    tokensFrom (position.movedTo base) source =
      (tokensFrom position source).map fun token => token.movedTo base := by
  fun_induction tokensFrom position source with
  | case1 position source none =>
    rw [tokensFrom_none none]
    exact congrArg (fun place => [Token.endOfInput place])
      (Position.after_movedTo base counted source).symm
  | case2 position source cut found start ih =>
    have first := Position.after_movedTo base counted cut.gap
    have second := Position.after_movedTo base (counted.after cut.gap) cut.literal
    rw [tokensFrom_cut found, ← first, ← second, ih ((counted.after cut.gap).after cut.literal)]
    rfl

/-- The tokens of a source put behind another one are its own at other places. -/
theorem tokenize_append (before source : Bytes)
    (shut : ∀ last ∈ (tokenize before).dropLast.getLast?, last.Shut) :
    tokenize (before ++ source) = (tokenize before).dropLast ++
      (tokenize source).map fun token => token.movedTo (Position.start.after before) := by
  unfold tokenize
  rw [tokensFrom_append .start before source shut]
  exact congrArg _ (tokensFrom_movedTo _ Position.start_counted source)

namespace Relocation

/-- All tokens, and the end of the input, go where a source from `base` on has them. -/
def shift (base finish : Position) : Relocation :=
  ⟨fun position => position.movedTo base, [], finish.movedTo base⟩

variable {base finish : Position}

theorem shift_keeps (tokens : List Token) : (shift base finish).Keeps tokens := by
  refine List.pairwise_of_forall fun left right => ?_
  change base.offset + left.start.offset + left.literal.length = base.offset + right.start.offset ↔
    left.start.offset + left.literal.length = right.start.offset
  omega

/-- The problems of the shifted tokens are those of the tokens, shifted. -/
theorem shift_same {found moved : List Diagnostic}
    (same : List.Forall₂ (shift base finish).Same found moved) :
    moved = found.map fun diagnostic => diagnostic.movedTo base := by
  induction same with
  | nil => rfl
  | cons first _ ih =>
    obtain ⟨problem, token, rfl, rfl⟩ := first
    rw [ih, List.map_cons, Diagnostic.ofToken_movedTo]
    rfl

/-- Wherever the tokens of a parser are moved, the stylesheet is the same. -/
theorem stylesheet_shift (base : Position) (room : Nat) (parser : Parser)
    (unlimited : parser.settings.maxErrors = none) (fresh : parser.errors = []) :
    let moved := Grammar.stylesheet room ((shift base parser.finish).parser parser)
    moved.1 = (Grammar.stylesheet room parser).1 ∧
      moved.2.errors = (Grammar.stylesheet room parser).2.errors.map
        fun diagnostic => diagnostic.movedTo base := by
  have follows := (Grammar.stylesheet room).follows parser
  have closed : (shift base parser.finish).Closed (Grammar.stylesheet room parser).2 :=
    ⟨rfl, congrArg (fun place => place.movedTo base) follows.finish.symm⟩
  obtain ⟨problems, same, run⟩ :=
    Grammar.stylesheet_carries room parser (shift_keeps _) (.inl closed)
  have whole : Grammar.stylesheet room ((shift base parser.finish).parser parser) = _ :=
    run parser.settings.maxErrors parser.errors
  rw [whole, Reading.errors_eq, unlimited, fresh, shift_same same]
  exact ⟨rfl, rfl⟩

theorem parser_extend (settings : Settings) (front more : List Token) (stop finish : Position) :
    (extend more finish).parser ⟨settings, front, stop, []⟩ =
      ⟨settings, front ++ more, finish, []⟩ := by
  have same : front.map (extend more finish).token = front := by
    rw [funext (extend_token more finish), List.map_id']
  unfold Relocation.parser
  rw [same]
  rfl

/-- Past the tokens of the first source, the parser of both is that of the second, shifted. -/
theorem beyond_extend (settings : Settings) (front back : List Token) (stop finish : Position) :
    (extend (back.map fun token => token.movedTo base) (finish.movedTo base)).beyond
        ⟨settings, front, stop, []⟩ =
      (shift base finish).parser ⟨settings, back, finish, []⟩ :=
  congrArg (fun ahead => Parser.mk settings ahead _ []) (List.append_nil _).symm

end Relocation

namespace Grammar

/-- The rules that are read without a problem come first, then those of the tokens added. -/
theorem stylesheet_append (relocation : Relocation) {parser : Parser} {room : Nat}
    (noEnd : ∀ token ∈ parser.ahead, token.kind ≠ .eof)
    (keeps : relocation.Keeps parser.ahead)
    (clean : (members room).found parser = []) :
    stylesheet room (relocation.parser parser) =
      let rest := stylesheet room (relocation.beyond parser)
      (⟨(stylesheet room parser).1.rules ++ rest.1.rules⟩, rest.2) := by
  have read := members_append noEnd keeps clean parser.settings.maxErrors parser.errors
  exact congrArg (fun read => ((⟨read.1⟩ : Stylesheet), read.2)) read

variable {settings : Settings} {front back : List Token} {stop finish : Position}

/-- The stylesheet of tokens without a problem, with the shifted tokens of another one behind. -/
theorem stylesheet_compose (room : Nat) (base : Position) (unlimited : settings.maxErrors = none)
    (noEnd : ∀ token ∈ front, token.kind ≠ .eof)
    (clean : (members room).found ⟨settings, front, stop, []⟩ = []) :
    let first := stylesheet room ⟨settings, front, stop, []⟩
    let second := stylesheet room ⟨settings, back, finish, []⟩
    let both := stylesheet room ⟨settings, front ++ back.map fun token => token.movedTo base,
      finish.movedTo base, []⟩
    both.1.rules = first.1.rules ++ second.1.rules ∧
      both.2.errors = second.2.errors.map fun diagnostic => diagnostic.movedTo base := by
  let more := back.map fun token => token.movedTo base
  have read := stylesheet_append (.extend more (finish.movedTo base)) noEnd
    (Relocation.extend_keeps more _ _) clean
  obtain ⟨rules, errors⟩ :=
    Relocation.stylesheet_shift base room ⟨settings, back, finish, []⟩ unlimited rfl
  rw [Relocation.parser_extend, Relocation.beyond_extend] at read
  dsimp only at read rules errors ⊢
  rw [read]
  exact ⟨by rw [rules], errors⟩

end Grammar

/-- True of a source whose last token is a comment without its end. -/
def EndsInComment (source : Bytes) : Prop :=
  ∃ last ∈ (tokenize source).dropLast.getLast?, last.kind = .comment ∧ ¬last.Terminated

/-- A source without a problem ends with a token that nothing put behind it can make longer, if it
does not end in a comment. -/
theorem last_shut {settings : Settings} {source : Bytes} {front : List Token} {stop : Position}
    {room : Nat} (split : tokenize source = front ++ [Token.endOfInput stop])
    (noEnd : ∀ token ∈ front, token.kind ≠ .eof)
    (clean : (Grammar.members room).found ⟨settings, front, stop, []⟩ = [])
    (complete : ¬EndsInComment source) :
    ∀ last ∈ (tokenize source).dropLast.getLast?, last.Shut := by
  intro last member
  have among : last ∈ front.getLast? := by rwa [split, List.dropLast_concat] at member
  rcases Grammar.members_last noEnd clean last among with seals | comment
  · exact .inl seals
  · refine .inr ⟨comment, ?_⟩
    by_contra unterminated
    exact complete ⟨last, member, comment, unterminated⟩

/-- What the parser before the first token of a source reads. -/
theorem Report.ofSource_eq {options : Options} {source : Bytes} {front : List Token}
    {finish : Position} (split : tokenize source = front ++ [Token.endOfInput finish]) :
    Report.ofSource options source =
      let read := Grammar.stylesheet Grammar.nestingLimit ⟨options.settings, front, finish, []⟩
      ⟨read.1, read.2.errors⟩ := by
  unfold Report.ofSource Report.ofTokens
  rw [split, ofTokens_eq]

/-- Stylesheets compose. Behind a source without a problem that does not end in a comment, a source
has the rules and the problems it has alone, the problems at the places where its bytes now are. -/
theorem parse_append (options : Options) (before source : Bytes)
    (unlimited : options.maxErrors = none)
    (clean : (Report.ofSource options before).errors = [])
    (complete : ¬EndsInComment before) :
    let alone := Report.ofSource options source
    let whole := Report.ofSource options (before ++ source)
    whole.stylesheet.rules = (Report.ofSource options before).stylesheet.rules ++
        alone.stylesheet.rules ∧
      whole.errors = alone.errors.map
        fun diagnostic => diagnostic.movedTo (Position.start.after before) := by
  obtain ⟨front, stop, split, _, noEnd⟩ := (tokenize_tiles before).lossless.finish
  obtain ⟨back, finish, divided, _, _⟩ := (tokenize_tiles source).lossless.finish
  let base := Position.start.after before
  let first : Parser := ⟨options.settings, front, stop, []⟩
  rw [Report.ofSource_eq split] at clean
  have quiet : (Grammar.members Grammar.nestingLimit).found first = [] := by
    have found := Reading.errors_eq (Grammar.members Grammar.nestingLimit) first
    rw [show first.settings.maxErrors = none from unlimited] at found
    exact found.symm.trans clean
  have joined : tokenize (before ++ source) =
      (front ++ back.map fun token => token.movedTo base) ++
        [Token.endOfInput (finish.movedTo base)] := by
    rw [tokenize_append before source (last_shut split noEnd quiet complete), split, divided,
      List.dropLast_concat, List.map_append, List.append_assoc]
    rfl
  rw [Report.ofSource_eq split, Report.ofSource_eq divided, Report.ofSource_eq joined]
  exact Grammar.stylesheet_compose _ base unlimited noEnd quiet

/-- A rule and a comment, and behind them a rule and a brace too many. -/
theorem parse_append_comment :
    ∃ before source, (Report.ofSource .standard before).errors = [] ∧ ¬EndsInComment before ∧
      (Report.ofSource .standard (before ++ source)).stylesheet.rules.length = 3 ∧
      (Report.ofSource .standard (before ++ source)).errors =
        [⟨.misplacedAtTop, 3, 1, .closeBrace⟩] := by
  have clean : (Report.ofSource .standard (utf8 "a \x7b b: c \x7d\n/* d */")).errors = [] := by
    decide +kernel
  have complete : ¬EndsInComment (utf8 "a \x7b b: c \x7d\n/* d */") := by
    rintro ⟨last, member, _, unterminated⟩
    have is : (tokenize (utf8 "a \x7b b: c \x7d\n/* d */")).dropLast.getLast? =
        some ⟨.comment, utf8 "/*" ++ utf8 " d " ++ utf8 "*/", ⟨2, 1, 11⟩⟩ := by
      decide +kernel
    obtain rfl := Option.some.inj (is.symm.trans member)
    exact unterminated ⟨utf8 " d ", rfl⟩
  obtain ⟨rules, errors⟩ :=
    parse_append .standard _ (utf8 "e \x7b f: g \x7d\n\x7d") rfl clean complete
  refine ⟨_, utf8 "e \x7b f: g \x7d\n\x7d", clean, complete, ?_, ?_⟩
  · rw [rules]
    decide +kernel
  · rw [errors]
    decide +kernel

end CssSyntax

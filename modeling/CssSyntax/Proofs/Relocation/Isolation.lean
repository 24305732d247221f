import CssSyntax.Proofs.Nesting.Skip
import CssSyntax.Proofs.Parser.Reads
import CssSyntax.Proofs.Relocation.Compose

/-! At-rules without a grammar. Such a rule is skipped up to the semicolon or the brace that ends
it, whatever its tokens are. What stands before it and behind it is read as if it was not there. -/

namespace CssSyntax

open Brace Reading

/-- What stands after the name of an at-rule without a grammar: the tokens of a statement with its
semicolon, or those up to a block with the block. Braces come in pairs in it, anything else comes as
it likes. -/
inductive SkippedTail : List Token → Prop
  | statement {head : List Token} {semicolon : Token}
      (plain : ∀ token ∈ head, token.isStructural = false) (ends : semicolon.kind = .semicolon) :
      SkippedTail (head ++ [semicolon])
  | block {head body : List Token} {opening closing : Token}
      (plain : ∀ token ∈ head, token.isStructural = false) (opens : opening.kind = .openBrace)
      (inside : Brace.Balanced (braces body)) (closes : closing.kind = .closeBrace) :
      SkippedTail (head ++ opening :: (body ++ [closing]))

/-- The `@`, the name and the rest of an at-rule whose name the registry does not know. -/
structure IsUnknown (registry : Registry) (mark name : Token) (tail : List Token) : Prop where
  marks : mark.kind = .atSign
  named : name.kind = .ident
  adjacent : mark.stop = name.start.offset
  unknown : registry.lookup name.literal = none
  ends : SkippedTail tail

variable {registry : Registry} {mark name : Token} {tail rest : List Token} {base : Position}

section Extent

theorem Span.goes_append {span : List Token → Nat} {head : List Token} (goes : Span.Goes span)
    (plain : ∀ token ∈ head, token.isStructural = false) (rest : List Token) :
    span (head ++ rest) = span rest + head.length := by
  induction head with
  | nil => rfl
  | cons token head ih =>
    obtain ⟨here, later⟩ := List.forall_mem_cons.1 plain
    rw [List.cons_append, goes token here, ih later, List.length_cons, Nat.add_assoc]

/-- Blocks that are whole do not end the skip of the one around them. -/
theorem Skipper.level_append (skipper : BlockSkipper) {opened after : Nat} {inner : List Token}
    (noEnd : ∀ token ∈ inner, token.kind ≠ .eof)
    (ends : depth opened (braces inner) = some after) (rest : List Token) :
    skipper.level (opened + 1) (inner ++ rest) =
      skipper.level (after + 1) rest + inner.length := by
  induction inner generalizing opened with
  | nil =>
    obtain rfl := Option.some.inj ends
    rfl
  | cons token inner ih =>
    obtain ⟨notEnd, later⟩ := List.forall_mem_cons.1 noEnd
    rw [List.cons_append, List.length_cons, ← Nat.add_assoc]
    by_cases opens : token.kind = .openBrace
    · rw [braces_cons_opening opens] at ends
      rw [skipper.opening opened token opens, ih later ends]
    · by_cases closes : token.kind = .closeBrace
      · rw [braces_cons_closing closes] at ends
        cases opened with
        | zero => exact absurd ends (Option.some_ne_none after).symm
        | succ opened => rw [skipper.closing _ token closes, ih later ends]
      · rw [braces_cons_plain (brace?_eq_none opens closes)] at ends
        have going : (token.kind == .eof) = false := beq_eq_false_iff_ne.2 notEnd
        rw [skipper.plain opened token opens closes going, ih later ends]

/-- The skip ends with the rule, whatever is behind it. -/
theorem SkippedTail.span_eq (written : SkippedTail tail) (noEnd : ∀ token ∈ tail, token.kind ≠ .eof)
    (rest : List Token) : Span.atRule 0 (tail ++ rest) = tail.length := by
  obtain ⟨goes, semicolon, block⟩ := Skipper.rules_starts
  cases written with
  | statement plain ends =>
    have last := semicolon _ ends rest
    rw [List.append_assoc, Span.goes_append goes plain, List.singleton_append, last]
    simp [Skipper.rules, Nat.add_comm]
  | @block head body opening closing plain opens inside closes =>
    have inner : ∀ token ∈ body, token.kind ≠ .eof := fun token member =>
      noEnd token (by simp [member])
    have whole := Skipper.rules.level_append inner inside (closing :: rest)
    have last := Skipper.rules.closing 0 closing closes rest
    rw [List.append_assoc, Span.goes_append goes plain, List.cons_append, block opening opens,
      List.append_assoc, List.singleton_append, whole, last]
    simp [Skipper.rules]
    omega

theorem SkippedTail.last (written : SkippedTail tail) :
    ∃ init last, tail = init ++ [last] ∧ last.seals = true := by
  cases written with
  | statement _ ends => exact ⟨_, _, rfl, by simp [Token.seals, ends]⟩
  | @block head body opening closing _ _ _ closes =>
    exact ⟨head ++ opening :: body, closing, by simp, by simp [Token.seals, closes]⟩

theorem braces_movedTo (base : Position) (tokens : List Token) :
    braces (tokens.map fun token => token.movedTo base) = braces tokens :=
  List.filterMap_map ..

theorem SkippedTail.movedTo (written : SkippedTail tail) (base : Position) :
    SkippedTail (tail.map fun token => token.movedTo base) := by
  cases written with
  | statement plain ends =>
    rw [List.map_append]
    exact .statement (List.forall_mem_map.2 plain) ends
  | block plain opens inside closes =>
    rw [List.map_append, List.map_cons, List.map_append]
    refine .block (List.forall_mem_map.2 plain) opens ?_ closes
    rwa [braces_movedTo]

theorem IsUnknown.movedTo (unknown : IsUnknown registry mark name tail) (base : Position) :
    IsUnknown registry (mark.movedTo base) (name.movedTo base)
      (tail.map fun token => token.movedTo base) := by
  obtain ⟨marks, named, adjacent, unknown, ends⟩ := unknown
  refine ⟨marks, named, ?_, unknown, ends.movedTo base⟩
  unfold Token.stop at adjacent
  change base.offset + mark.start.offset + mark.literal.length = base.offset + name.start.offset
  omega

end Extent

namespace Grammar

variable {parser : Parser} {room : Nat}

section Skip

/-- An unknown at-rule is read as nothing, with one problem at its name. -/
theorem atRule_unknown (unknown : IsUnknown parser.settings.registry mark name tail)
    (noEnd : ∀ token ∈ tail, token.kind ≠ .eof)
    (ahead : parser.ahead = mark :: name :: (tail ++ rest)) :
    atRule (room + 1) parser =
      (none, parser.step (tail.length + 2) [Diagnostic.ofToken .unknownAtRule name]) := by
  obtain ⟨_, named, adjacent, unknown, ends⟩ := unknown
  have names : namesAtRule parser = true := by
    unfold namesAtRule Parser.nextIs Parser.isAdjacent Parser.next Parser.nth
    rw [ahead]
    simp [named, adjacent]
  have here : (parser.skip 1).current = name := by
    refine current_of_head ?_
    change (parser.ahead.drop 1).head? = some name
    rw [ahead]
    rfl
  have extent : Span.atRule 0 (parser.ahead.drop 2) = tail.length := by
    rw [ahead]
    exact ends.span_eq noEnd rest
  have skipped : ((parser.skip 1).record .unknownAtRule name).skip 1 =
      parser.step 2 [Diagnostic.ofToken .unknownAtRule name] := by
    rw [Parser.record_eq_step, ← Parser.step_skip, ← Parser.step_skip, Parser.step_step,
      Parser.step_step]
    rfl
  have missing : (peek (·.settings.registry.lookup name.literal)).run (parser.skip 1) =
      (none, parser.skip 1) := Prod.ext unknown rfl
  rw [atRule]
  change (if namesAtRule parser = true then namedAtRule _ else _ : Reading (Option Node))
    (parser.skip 1) = _
  rw [if_pos names, namedAtRule, current_apply, here, bind_apply, missing]
  change (none, Parser.skip (((parser.skip 1).record .unknownAtRule name).skip 1)
    (Span.atRule 0 (((parser.skip 1).record .unknownAtRule name).skip 1).ahead)) = _
  rw [skipped]
  change (none, (parser.step 2 _).skip (Span.atRule 0 (parser.ahead.drop 2))) = _
  rw [extent, ← Parser.step_skip, Parser.step_step, List.append_nil, Nat.add_comm 2]

theorem topMember_unknown (unknown : IsUnknown parser.settings.registry mark name tail)
    (noEnd : ∀ token ∈ tail, token.kind ≠ .eof)
    (ahead : parser.ahead = mark :: name :: (tail ++ rest)) :
    topMember (room + 1) parser =
      ([], parser.step (tail.length + 2) [Diagnostic.ofToken .unknownAtRule name]) := by
  have here : parser.current = mark := current_of_head (ahead ▸ rfl)
  have read : atRule (room + 1) parser = _ := atRule_unknown unknown noEnd ahead
  rw [topMember, current_apply, here, unknown.marks]
  change ((atRule (room + 1) parser).1.toList, (atRule (room + 1) parser).2) = _
  rw [read]
  rfl

/-- With an unknown at-rule in front, tokens have the rules they have alone and one problem more. -/
theorem stylesheet_unknown {settings : Settings} (some : 0 < room)
    (unlimited : settings.maxErrors = none)
    (unknown : IsUnknown settings.registry mark name tail)
    (noEnd : ∀ token ∈ tail, token.kind ≠ .eof) (rest : List Token) (finish : Position) :
    let alone := stylesheet room ⟨settings, rest, finish, []⟩
    let whole := stylesheet room ⟨settings, mark :: name :: (tail ++ rest), finish, []⟩
    whole.1 = alone.1 ∧
      whole.2.errors = Diagnostic.ofToken .unknownAtRule name :: alone.2.errors := by
  obtain ⟨room, rfl⟩ := Nat.exists_eq_add_one.2 some
  obtain ⟨registry, keepComments, limit⟩ := settings
  obtain rfl : limit = none := unlimited
  let settings : Settings := ⟨registry, keepComments, none⟩
  let parser : Parser := ⟨settings, mark :: name :: (tail ++ rest), finish, []⟩
  let later : Parser := ⟨settings, rest, finish, []⟩
  let problem := Diagnostic.ofToken .unknownAtRule name
  have going : (parser.current.kind == .eof) = false := by
    change (mark.kind == .eof) = false
    rw [unknown.marks]
    rfl
  have step : parser.step (tail.length + 2) [problem] = later.withErrors none [problem] := by
    change Parser.mk settings ((tail ++ rest).drop tail.length) finish [problem] = _
    rw [List.drop_left]
    rfl
  have read : members (room + 1) parser = _ := collect_step topMember_advances going
  rw [topMember_unknown unknown noEnd rfl, step] at read
  have further := run_withErrors (members (room + 1)) later none [problem]
  have alone : (members (room + 1) later).2.errors = _ := errors_eq (members (room + 1)) later
  change Stylesheet.mk (members (room + 1) parser).1 = ⟨(members (room + 1) later).1⟩ ∧
    (members (room + 1) parser).2.errors = problem :: (members (room + 1) later).2.errors
  rw [read, alone]
  change Stylesheet.mk (members (room + 1) (later.withErrors none [problem])).1 = _ ∧
    (members (room + 1) (later.withErrors none [problem])).2.errors = _
  rw [further]
  exact ⟨rfl, rfl⟩

end Skip

end Grammar

/-- Only the last token of a source is its end. -/
theorem notEnd_of_tokenize {source : Bytes} {front : List Token} {stop : Position}
    (split : tokenize source = front ++ [Token.endOfInput stop]) :
    ∀ token ∈ front, token.kind ≠ .eof := by
  obtain ⟨inner, finish, same, _, noEnd⟩ := (tokenize_tiles source).lossless.finish
  obtain rfl : inner = front := by
    have both := congrArg List.dropLast (same.symm.trans split)
    rwa [List.dropLast_concat, List.dropLast_concat] at both
  exact noEnd

/-- Nothing is found in a source without a problem, if any number of problems may be recorded. -/
theorem found_eq_nil {options : Options} {source : Bytes} {front : List Token} {stop : Position}
    (split : tokenize source = front ++ [Token.endOfInput stop])
    (unlimited : options.maxErrors = none) (clean : (Report.ofSource options source).errors = []) :
    (Grammar.members Grammar.nestingLimit).found ⟨options.settings, front, stop, []⟩ = [] := by
  rw [Report.ofSource_eq split] at clean
  have found := errors_eq (Grammar.members Grammar.nestingLimit)
    ⟨options.settings, front, stop, []⟩
  rw [show options.settings.maxErrors = none from unlimited] at found
  exact found.symm.trans clean

/-- The tokens of an unknown at-rule between two sources. -/
theorem tokenize_between {before rule source : Bytes} {front : List Token} {start stop : Position}
    (split : tokenize before = front ++ [Token.endOfInput start])
    (shut : ∀ last ∈ (tokenize before).dropLast.getLast?, last.Shut)
    (written : tokenize rule = mark :: name :: (tail ++ [Token.endOfInput stop]))
    (unknown : IsUnknown registry mark name tail) :
    let base := Position.start.after before
    tokenize (before ++ rule ++ source) =
      front ++ mark.movedTo base :: name.movedTo base ::
        ((tail.map fun token => token.movedTo base) ++
          (tokenize source).map fun token =>
            token.movedTo (Position.start.after (before ++ rule))) := by
  intro base
  obtain ⟨init, last, whole, seals⟩ := (unknown.movedTo base).ends.last
  have first : tokenize (before ++ rule) =
      (front ++ mark.movedTo base :: name.movedTo base :: init ++ [last]) ++
        [Token.endOfInput (stop.movedTo base)] := by
    rw [tokenize_append before rule shut, split, written, List.dropLast_concat, List.map_cons,
      List.map_cons, List.map_append, whole]
    simp only [List.append_assoc, List.cons_append]
    rfl
  have sealed : ∀ last ∈ (tokenize (before ++ rule)).dropLast.getLast?, last.Shut := by
    intro other member
    rw [first, List.dropLast_concat, List.getLast?_concat] at member
    obtain rfl := Option.some.inj member
    exact .inl seals
  rw [tokenize_append (before ++ rule) source sealed, first, List.dropLast_concat, whole]
  simp

/-- Unknown at-rules are isolated. Between a source without a problem that does not end in a comment
and any other source, an at-rule whose name the registry does not know leaves the rules of both as
they are. Its name gives one problem, and those of the source behind it follow, at the places where
its bytes now are. -/
theorem parse_unknownAtRule (options : Options) (before rule source : Bytes) {mark name : Token}
    {tail : List Token} {stop : Position} (unlimited : options.maxErrors = none)
    (clean : (Report.ofSource options before).errors = []) (complete : ¬EndsInComment before)
    (written : tokenize rule = mark :: name :: (tail ++ [Token.endOfInput stop]))
    (unknown : IsUnknown options.registry mark name tail) :
    let alone := Report.ofSource options source
    let whole := Report.ofSource options (before ++ rule ++ source)
    whole.stylesheet.rules = (Report.ofSource options before).stylesheet.rules ++
        alone.stylesheet.rules ∧
      whole.errors =
        (Diagnostic.ofToken .unknownAtRule name).movedTo (Position.start.after before) ::
          alone.errors.map fun diagnostic =>
            diagnostic.movedTo (Position.start.after (before ++ rule)) := by
  obtain ⟨front, start, split, _, noEnd⟩ := (tokenize_tiles before).lossless.finish
  obtain ⟨back, finish, divided, _, _⟩ := (tokenize_tiles source).lossless.finish
  let base := Position.start.after before
  let next := Position.start.after (before ++ rule)
  let moved := tail.map fun token => token.movedTo base
  let more := back.map fun token => token.movedTo next
  have quiet := found_eq_nil split unlimited clean
  have shut := last_shut split noEnd quiet complete
  have joined : tokenize (before ++ rule ++ source) =
      (front ++ mark.movedTo base :: name.movedTo base :: (moved ++ more)) ++
        [Token.endOfInput (finish.movedTo next)] := by
    rw [tokenize_between split shut written unknown, divided]
    simp only [List.map_append, List.append_assoc, List.cons_append]
    rfl
  have isolated : IsUnknown options.settings.registry (mark.movedTo base) (name.movedTo base)
      moved :=
    unknown.movedTo base
  have notEnd : ∀ token ∈ moved, token.kind ≠ .eof := by
    have whole : tokenize rule = (mark :: name :: tail) ++ [Token.endOfInput stop] := written
    refine List.forall_mem_map.2 fun token member => ?_
    exact notEnd_of_tokenize whole token (.tail _ (.tail _ member))
  have read := Grammar.stylesheet_append
    (.extend (mark.movedTo base :: name.movedTo base :: (moved ++ more)) (finish.movedTo next))
    noEnd (Relocation.extend_keeps _ _ _) quiet
  have skipped := Grammar.stylesheet_unknown (by decide : 0 < Grammar.nestingLimit) unlimited
    isolated notEnd more (finish.movedTo next)
  have alone := Relocation.stylesheet_shift next Grammar.nestingLimit
    ⟨options.settings, back, finish, []⟩ unlimited rfl
  rw [Relocation.parser_extend] at read
  rw [← Relocation.beyond_extend options.settings front back start finish] at alone
  rw [Report.ofSource_eq split, Report.ofSource_eq divided, Report.ofSource_eq joined]
  dsimp only at read skipped alone ⊢
  rw [read]
  constructor
  · exact congrArg (fun sheet : Stylesheet => _ ++ sheet.rules) (skipped.1.trans alone.1)
  · exact skipped.2.trans (congrArg (List.cons _) alone.2)

/-- A disabled name between two rules, with a parenthesis too many, and in its block a semicolon,
another block and a parenthesis too few. A brace too many ends the source. -/
theorem parse_unknownAtRule_disabled :
    ∃ options before rule source, options.disabled = ["media"] ∧
      rule = utf8 "@Media ) \x7b b; \x7b \x7d ( \x7d" ∧
      (Report.ofSource options before).errors = [] ∧ ¬EndsInComment before ∧
      (Report.ofSource options (before ++ rule ++ source)).stylesheet.rules.length = 2 ∧
      (Report.ofSource options (before ++ rule ++ source)).errors =
        [⟨.unknownAtRule, 2, 2, .ident⟩, ⟨.misplacedAtTop, 3, 6, .closeBrace⟩] := by
  let options : Options := ⟨true, none, .empty, ["media"]⟩
  have clean : (Report.ofSource options (utf8 "a \x7b\x7d\n")).errors = [] := by decide +kernel
  have complete : ¬EndsInComment (utf8 "a \x7b\x7d\n") := by
    rintro ⟨last, member, comment, _⟩
    have is : (tokenize (utf8 "a \x7b\x7d\n")).dropLast.getLast? =
        some ⟨.closeBrace, utf8 "\x7d", ⟨1, 4, 3⟩⟩ := by
      decide +kernel
    obtain rfl := Option.some.inj (is.symm.trans member)
    exact absurd comment (by decide)
  let mark : Token := ⟨.atSign, utf8 "@", ⟨1, 1, 0⟩⟩
  let name : Token := ⟨.ident, utf8 "Media", ⟨1, 2, 1⟩⟩
  let closeParen : Token := ⟨.closeParen, utf8 ")", ⟨1, 8, 7⟩⟩
  let opening : Token := ⟨.openBrace, utf8 "\x7b", ⟨1, 10, 9⟩⟩
  let body : List Token :=
    [⟨.ident, utf8 "b", ⟨1, 12, 11⟩⟩, ⟨.semicolon, utf8 ";", ⟨1, 13, 12⟩⟩,
      ⟨.openBrace, utf8 "\x7b", ⟨1, 15, 14⟩⟩, ⟨.closeBrace, utf8 "\x7d", ⟨1, 17, 16⟩⟩,
      ⟨.openParen, utf8 "(", ⟨1, 19, 18⟩⟩]
  let closing : Token := ⟨.closeBrace, utf8 "\x7d", ⟨1, 21, 20⟩⟩
  let tail := [closeParen] ++ opening :: (body ++ [closing])
  have written : tokenize (utf8 "@Media ) \x7b b; \x7b \x7d ( \x7d") =
      mark :: name :: (tail ++ [Token.endOfInput ⟨1, 22, 21⟩]) := by
    decide +kernel
  have block : SkippedTail tail := .block (by decide) rfl (by decide) rfl
  have unknown : IsUnknown options.registry mark name tail :=
    ⟨rfl, rfl, by decide, by decide +kernel, block⟩
  obtain ⟨rules, errors⟩ := parse_unknownAtRule options _ _ (utf8 "\nc \x7b\x7d \x7d") rfl clean
    complete written unknown
  refine ⟨options, _, _, utf8 "\nc \x7b\x7d \x7d", rfl, rfl, clean, complete, ?_, ?_⟩
  · rw [rules]
    decide +kernel
  · rw [errors]
    decide +kernel

end CssSyntax

import CssSyntax.Proofs.Comments.Rule
import CssSyntax.Proofs.Order.Rule
import CssSyntax.Proofs.Token.Tiling
import CssSyntax.Report
import Mathlib.Data.List.Infix

/-! Comments are transparent to a parse, as long as no comment is to blame for a problem, parts a
name from its parenthesis or a family name in two. The tokens of the source less the comments then
give the same tree and the same problems. -/

namespace CssSyntax

open Verbatim

instance (tokens : List Token) : Decidable (CallsWhole tokens) :=
  decidable_of_iff
    (∀ part ∈ tokens.tails, ∀ name ∈ part.head?, ∀ comment ∈ part.tail.head?,
      name.kind = .ident → comment.kind = .comment →
        ∀ follower ∈ (kept part.tail.tail).head?, follower.kind ≠ .openParen) <| by
    constructor
    · intro whole name comment rest part
      exact whole _ ((List.mem_tails _ _).2 part) name rfl comment rfl
    · intro whole part member name first comment second
      rcases part with _ | ⟨front, _ | ⟨next, rest⟩⟩
      · exact absurd first (Option.not_mem_none name)
      · exact absurd second (Option.not_mem_none comment)
      · obtain rfl := Option.some.inj first
        obtain rfl := Option.some.inj second
        exact whole front next rest ((List.mem_tails _ _).1 member)

/-- Where no name stands for feature values, there are no families to part. -/
theorem FamiliesWhole.of_names {registry : Registry} {tokens : List Token}
    (names : ∀ token ∈ tokens, registry.lookup token.literal ≠ some .fontFeatureValues) :
    FamiliesWhole registry tokens := by
  intro mark name rest part _ known
  have member : name ∈ mark :: name :: rest := List.mem_cons_of_mem _ List.mem_cons_self
  exact absurd known (names name (part.subset member))

/-- A comment is to blame for a problem at a comment, and for one of three others. -/
theorem Blameless.of_problems {tokens : List Token} {found : List Diagnostic}
    (others : ∀ diagnostic ∈ found, diagnostic.token ≠ .comment ∧
      diagnostic.problem ≠ .misplaced "declaration value" ∧
      diagnostic.problem ≠ .misplaced "supports condition" ∧
      diagnostic.problem ≠ .misplaced "layer rule") : Blameless tokens found := by
  intro diagnostic member blamed
  obtain ⟨plain, value, condition, layer⟩ := others diagnostic member
  cases blamed with
  | met is => exact plain is
  | important => exact value rfl
  | declaration => exact condition rfl
  | layer => exact layer rfl

section Front

variable {tokens more : List Token}

theorem CallsWhole.front (whole : CallsWhole (tokens ++ more)) : CallsWhole tokens := by
  rintro name comment rest ⟨before, split⟩ is parted follower member
  refine whole name comment (rest ++ more) ⟨before, ?_⟩ is parted follower ?_
  · rw [← split, List.append_assoc]
    rfl
  · rw [kept_append]
    exact List.mem_head?_append_of_mem_head? member

theorem WordsWhole.front (whole : WordsWhole (tokens ++ more)) : WordsWhole tokens := by
  intro before name comment rest split going is parted follower member
  refine whole before name comment (rest ++ more) ?_ going is parted follower ?_
  · rw [← split, List.append_assoc]
    rfl
  · rw [kept_append]
    exact List.mem_head?_append_of_mem_head? member

theorem FamiliesWhole.front {registry : Registry}
    (whole : FamiliesWhole registry (tokens ++ more)) : FamiliesWhole registry tokens := by
  rintro mark name rest ⟨before, split⟩ is known
  refine (whole mark name (rest ++ more) ⟨before, ?_⟩ is known).front
  rw [← split, List.append_assoc]
  rfl

theorem Parted.front {token : Token} {behind : List Token} (parted : Parted tokens token behind) :
    Parted (tokens ++ more) token (behind ++ kept more) := by
  obtain ⟨comment, rest, ⟨before, split⟩, is, same⟩ := parted
  refine ⟨comment, rest ++ more, ⟨before, ?_⟩, is, ?_⟩
  · rw [← split, List.append_assoc]
    rfl
  · rw [kept_append, same]

theorem Diagnostic.OfComment.front {diagnostic : Diagnostic}
    (blamed : diagnostic.OfComment tokens) : diagnostic.OfComment (tokens ++ more) := by
  cases blamed with
  | met is => exact .met is
  | important parted is follows => exact .important parted.front is follows
  | declaration parted is follows => exact .declaration parted.front is follows
  | layer parted is dot follows touches => exact .layer parted.front is dot follows touches

theorem Blameless.front {found : List Diagnostic} (blameless : Blameless (tokens ++ more) found) :
    Blameless tokens found :=
  fun diagnostic member blamed => blameless diagnostic member blamed.front

end Front

/-- The tokens of a source before its end stand one after the other. -/
theorem Lossless.laid {source : Bytes} {front : List Token} {stop : Position}
    (lossless : Lossless source (front ++ [Token.endOfInput stop]))
    (noEnd : ∀ token ∈ front, token.kind ≠ .eof) : Laid front := by
  have between := (List.isChain_append.1 lossless.between).1.imp fun _ _ blank => blank.1
  constructor
  · have : IsTrans Token fun left right => left.stop ≤ right.start.offset := by
      refine ⟨fun left token right first second => first.trans (le_trans ?_ second)⟩
      exact Nat.le_add_right _ _
    exact List.isChain_iff_pairwise.1 between
  · intro token member
    exact (lossless.literals token (List.mem_append_left _ member) (noEnd token member)).1

/-- A parse without comments finds no problem at one. -/
theorem kept_errors_plain (settings : Settings) (source : Bytes) :
    ∀ error ∈ (Report.ofTokens settings (kept (tokenize source))).errors,
      error.token ≠ .comment := by
  obtain ⟨front, last, split, -, -⟩ := (tokenize_tiles source).lossless.finish
  have bare : kept (front ++ [Token.endOfInput last]) = kept front ++ [Token.endOfInput last] :=
    kept_append ..
  unfold Report.ofTokens
  rw [split, bare, ofTokens_eq]
  let parser : Parser := ⟨settings, kept front, last, []⟩
  have walk := @Grammar.stylesheet_walks parser.remaining Grammar.nestingLimit parser (by
    rintro tokens ⟨⟩
    exact List.suffix_rfl)
  intro error member
  have found : error ∈ (Grammar.stylesheet Grammar.nestingLimit).found parser := by
    change error ∈ (Grammar.stylesheet Grammar.nestingLimit parser).2.errors at member
    rw [Reading.errors_eq] at member
    exact ( capped_nil_prefix _ _).subset member
  obtain ⟨token, rest, within, -, stands⟩ := walk.stands error found
  have among : token ∈ kept front ++ [Token.endOfInput last] := within.subset List.mem_cons_self
  rw [stands.2.2]
  rcases List.mem_append.1 among with inner | ended
  · exact kept_plain token inner
  · rw [List.mem_singleton.1 ended]
    exact nofun

/-- Comments are transparent. Where none is to blame for a problem of a parse that drops them, the
tokens of the source without the comments have the same tree and the same problems. Where a problem
stands at a comment, they have others. -/
theorem parse_without_comments (options : Options) (source : Bytes)
    (dropped : options.keepComments = false) (calls : CallsWhole (tokenize source))
    (families : FamiliesWhole options.registry (tokenize source)) :
    let bare := Report.ofTokens options.settings (kept (tokenize source))
    let report := Report.ofSource options source
    let unlimited := Report.ofSource { options with maxErrors := none } source
    (Blameless (tokenize source) unlimited.errors → bare = report) ∧
      ((∃ error ∈ report.errors, error.token = .comment) → bare.errors ≠ report.errors) := by
  refine ⟨fun blameless => ?_, ?_⟩
  · have lossless := (tokenize_tiles source).lossless
    obtain ⟨front, stop, split, _, noEnd⟩ := lossless.finish
    rw [split] at lossless calls families
    let parser : Parser := ⟨options.settings, front, stop, []⟩
    have commented : parser.Commented :=
      ⟨dropped, lossless.laid noEnd, calls.front, families.front⟩
    have bare : kept (front ++ [Token.endOfInput stop]) = kept front ++ [Token.endOfInput stop] :=
      kept_append ..
    unfold Report.ofSource Report.ofTokens at blameless ⊢
    rw [split, ofTokens_eq] at blameless ⊢
    rw [bare, ofTokens_eq]
    let read := Grammar.stylesheet Grammar.nestingLimit
    have none : Blameless front (read.found parser) := blameless.front
    have same : read parser.bare = ((read parser).1, (read parser).2.bare.withErrors _ _) :=
      Grammar.stylesheet_clear _ parser commented none options.maxErrors []
    change (⟨(read parser.bare).1, (read parser.bare).2.errors⟩ : Report) =
      ⟨(read parser).1, (read parser).2.errors⟩
    rw [same, read.errors_eq parser]
    rfl
  · rintro ⟨error, member, is⟩ same
    rw [← same] at member
    exact kept_errors_plain options.settings source error member is

/-- Comments in the preludes, between and in the declarations of a rule in a rule, and problems
that have nothing to do with them. -/
theorem parse_without_comments_nested :
    ∃ options source, options.keepComments = false ∧ CallsWhole (tokenize source) ∧
      FamiliesWhole options.registry (tokenize source) ∧
      Blameless (tokenize source)
        (Report.ofSource { options with maxErrors := none } source).errors ∧
      (Report.ofSource options source).errors =
        [⟨.noPropertyName, 1, 36, .equals⟩, ⟨.misplacedAtTop, 1, 85, .closeBrace⟩] ∧
      (kept (tokenize source)).length + 6 = (tokenize source).length ∧
      Report.ofTokens options.settings (kept (tokenize source)) =
        Report.ofSource options source := by
  let options : Options := ⟨false, none, .empty, []⟩
  let source := utf8 ("@media /* a */ print \x7b b /* c */ \x7b = ; "
    ++ "d: /* e */ f(/* g */ h /* i */); /* j */ \x7d \x7d \x7d")
  have calls : CallsWhole (tokenize source) := by decide +kernel
  have names : ∀ token ∈ tokenize source,
      options.registry.lookup token.literal ≠ some .fontFeatureValues := by
    decide +kernel
  have blameless : Blameless (tokenize source) (Report.ofSource options source).errors :=
    .of_problems (by decide +kernel)
  refine ⟨options, source, rfl, calls, .of_names names, blameless, by decide +kernel,
    by decide +kernel, ?_⟩
  exact (parse_without_comments options source rfl calls (.of_names names)).1 blameless

/-- A comment before the semicolon of a character set is a problem, and nothing else there is. -/
theorem charset_comment_found :
    ∃ options source, options.keepComments = false ∧
      (Report.ofTokens options.settings (kept (tokenize source))).errors = [] ∧
      (Report.ofSource options source).errors =
        [⟨Grammar.noSemicolon "@charset", 1, 18, .comment⟩,
          ⟨.misplacedAtTop, 1, 22, .semicolon⟩] :=
  ⟨⟨false, none, .empty, []⟩, utf8 "@charset \"utf-8\" /**/;", rfl, by decide +kernel,
    by decide +kernel⟩

end CssSyntax

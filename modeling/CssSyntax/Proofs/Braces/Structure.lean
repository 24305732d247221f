import CssSyntax.Proofs.Braces.Rule
import CssSyntax.Proofs.Token.Tiling
import CssSyntax.Report

/-! The blocks of a source and those of its tree. A parse without diagnostics yields a tree with
the very braces of the source. A parse with diagnostics leaves each block right after its own
closing brace, unless it dropped a brace without its partner on the way. -/

namespace CssSyntax

open Brace Reading Grammar

section Clean

/-- A parse from the first token to the end of the input takes every token. -/
theorem stylesheet_takes_all (room : Nat) {parser : Parser}
    (noEnd : ∀ token ∈ parser.ahead, token.kind ≠ .eof) :
    (stylesheet room).taken parser = parser.ahead := by
  have kept := ((stylesheet room).follows parser).ahead.subset
  have none : (stylesheet room parser).2.ahead = [] := by
    apply ahead_of_end
    · intro token member
      exact noEnd token (kept member)
    · exact currentIs_iff.1 (stylesheet_atEnd room parser)
  apply taken_eq
  rw [none, List.append_nil]

theorem stylesheet_braces (room : Nat) {parser : Parser}
    (noEnd : ∀ token ∈ parser.ahead, token.kind ≠ .eof)
    (clean : (stylesheet room).found parser = []) :
    braces parser.ahead = (stylesheet room parser).1.braces ∧ Balanced (braces parser.ahead) := by
  have calm : Calm parser.ahead ((stylesheet room).found parser) := by
    rw [clean]
    exact ⟨noEnd, fun _ member => absurd member List.not_mem_nil⟩
  obtain ⟨same, balanced⟩ := (stylesheet_mirrors room parser).faithful calm clean
  rw [stylesheet_takes_all room noEnd] at same
  rw [same]
  exact ⟨rfl, balanced⟩

theorem braces_endOfInput (front : List Token) (position : Position) :
    braces (front ++ [Token.endOfInput position]) = braces front := by
  rw [braces_append]
  exact List.append_nil _

/-- If nothing is recorded although nothing is left out, the braces of the source are balanced and
are those of the tree, in document order: no block is lost, made up or put under another. -/
theorem clean_parse_braces (options : Options) (source : Bytes)
    (unlimited : options.settings.maxErrors = none)
    (clean : (Report.ofSource options source).errors = []) :
    Balanced (braces (tokenize source)) ∧
      braces (tokenize source) = (Report.ofSource options source).stylesheet.braces := by
  obtain ⟨front, position, split, _, noEnd⟩ := (tokenize_tiles source).lossless.finish
  have start : Parser.ofTokens options.settings (tokenize source) =
      ⟨options.settings, front, position, []⟩ := by
    rw [split, ofTokens_eq]
  unfold Report.ofSource Report.ofTokens at clean ⊢
  rw [start] at clean ⊢
  rw [split, braces_endOfInput]
  dsimp only at clean ⊢
  rw [errors_eq, unlimited] at clean
  obtain ⟨same, balanced⟩ := stylesheet_braces nestingLimit noEnd clean
  exact ⟨balanced, same⟩

theorem clean_parse_braces_nested :
    ∃ source, (Report.ofSource .standard source).errors = [] ∧
      braces (tokenize source) = block (block [] ++ block []) := by
  refine ⟨utf8 "@media x \x7b a \x7b b: c \x7d @font-face \x7b d: e \x7d \x7d", ?_, ?_⟩
  · decide +kernel
  · rw [(clean_parse_braces .standard _ rfl (by decide +kernel)).2]
    decide +kernel

end Clean

section Recovery

/-- The routines that read a block from after its `{`. -/
inductive BlockBody where
  | ruleSet
  | media
  | supports
  | layer
  | container
  | keyframes
  | featureValues
  | declarations (place : String)

def BlockBody.read (room : Nat) : BlockBody → Reading Unit
  | ruleSet => (fun _ => ()) <$> ruleSetBody room (Grammar.ruleSet room) (atRule room)
  | media => (fun _ => ()) <$> nestedRules (Grammar.ruleSet room) (atRule room) "media block"
  | supports => (fun _ => ()) <$> nestedRules (Grammar.ruleSet room) (atRule room) "supports block"
  | layer => (fun _ => ()) <$> nestedRules (Grammar.ruleSet room) (atRule room) "layer block"
  | container => (fun _ => ()) <$> containerBody room (Grammar.ruleSet room) (atRule room)
  | keyframes => (fun _ => ()) <$> keyframesBody room
  | featureValues => (fun _ => ()) <$> featureBody room
  | declarations place => (fun _ => ()) <$> Grammar.declarations room place

theorem BlockBody.read_endsBlock (room : Nat) (body : BlockBody) (parser : Parser) :
    (body.read room).EndsBlock parser := by
  have inner := rulesMirror room
  cases body with
  | ruleSet => exact (ruleSetBody_closes inner parser).level
  | media => exact (nestedRules_closes inner (by simp [Recovery.table]) parser).level
  | supports => exact (nestedRules_closes inner (by simp [Recovery.table]) parser).level
  | layer => exact (nestedRules_closes inner (by simp [Recovery.table]) parser).level
  | container => exact (containerBody_closes inner parser).level
  | keyframes => exact (keyframesBody_closes parser).level
  | featureValues => exact (featureBody_closes parser).level
  | declarations place => exact (declarations_closes place parser).level

/-- After an opening brace of a balanced run of tokens the tokens that are left close more blocks
than they open. -/
theorem not_opens_of_balanced {front ahead : List Token} {opening : Token}
    (opens : opening.kind = .openBrace) (balanced : Balanced (braces (front ++ opening :: ahead))) :
    ¬Opens (braces ahead) := by
  rintro ⟨after, ends⟩
  unfold Brace.Balanced at balanced
  rw [braces_append, braces_cons_opening opens, depth_append] at balanced
  cases start : depth 0 (braces front) with
  | none => simp [start] at balanced
  | some outer =>
    rw [start] at balanced
    have whole := depth_add (outer + 1) ends
    rw [Nat.zero_add] at whole
    change depth (outer + 1) (braces ahead) = some 0 at balanced
    rw [whole] at balanced
    exact absurd (Option.some.inj balanced) (by omega)

/-- Entered after a `{` of a balanced run of tokens, each of the routines returns right after the
`}` of that block, whatever is broken inside, if what was dropped for the problems that it found
was balanced too. -/
theorem body_returns_after_block (body : BlockBody) (room : Nat) (parser : Parser)
    (front : List Token) (opening : Token) (opens : opening.kind = .openBrace)
    (balanced : Balanced (braces (front ++ opening :: parser.ahead)))
    (calm : Calm parser.ahead ((body.read room).found parser)) :
    afterBlock 0 parser.ahead = some (body.read room parser).2.ahead := by
  have split := taken_append (body.read room) parser
  rcases body.read_endsBlock room parser calm with
    ⟨inner, closing, taken, closes, settled⟩ | ⟨none, ends⟩
  · rw [taken, List.append_assoc] at split
    rw [← split, afterBlock_append settled]
    simp [afterBlock, Token.brace?, Kind.brace?, closes]
  · rw [none, List.append_nil] at split
    rw [split] at ends
    exact absurd ends (not_opens_of_balanced opens balanced)

/-- Three broken constructs, each dropped with all of its braces. -/
theorem body_returns_after_block_broken :
    ∃ parser : Parser, ((BlockBody.media.read nestingLimit).found parser).length = 3 ∧
      afterBlock 0 parser.ahead = some (BlockBody.media.read nestingLimit parser).2.ahead := by
  let source := utf8 "\x7b a \x7b b c; d: \x7d @x \x7b y \x7b \x7d \x7d \x7d z \x7b \x7d"
  refine ⟨.ofTokens .standard (tokenize source).tail, ?_, ?_⟩
  · decide +kernel
  · apply body_returns_after_block .media nestingLimit _ [] ⟨.openBrace, utf8 "\x7b", .start⟩ rfl
    · decide +kernel
    · decide +kernel

/-- A stray `{` in a value is dropped alone, so the `}` that closes it ends the block around it. -/
theorem body_may_return_early :
    ¬∀ (body : BlockBody) (room : Nat) (parser : Parser) (front : List Token) (opening : Token),
      opening.kind = .openBrace → Balanced (braces (front ++ opening :: parser.ahead)) →
        (∀ token ∈ parser.ahead, token.kind ≠ .eof) →
          afterBlock 0 parser.ahead = some (body.read room parser).2.ahead := by
  intro always
  have early := always (.declarations "@font-face") nestingLimit
    (.ofTokens .standard (tokenize (utf8 "\x7b a: \x7bb\x7d c: d \x7d e \x7b \x7d")).tail) []
    ⟨.openBrace, utf8 "\x7b", .start⟩ rfl (by decide +kernel) (by decide +kernel)
  revert early
  decide +kernel

end Recovery

end CssSyntax

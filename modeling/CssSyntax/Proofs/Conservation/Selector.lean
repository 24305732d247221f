import CssSyntax.Proofs.Comments.Bare
import CssSyntax.Proofs.Parser.Spans
import CssSyntax.Proofs.Parser.Quiet
import CssSyntax.Proofs.Parser.Yield

/-! What the selectors of a rule-set are made of. Put one after the other their values are the
tokens up to the `{` of the block, in their order: only comments leave nothing behind, and only
spaces are put in. -/

namespace CssSyntax

open Reading

/-- All bytes but the spaces. -/
def Bytes.visible (bytes : Bytes) : Bytes := bytes.filter (· != Byte.space)

theorem Bytes.visible_append (left right : Bytes) :
    visible (left ++ right) = visible left ++ visible right :=
  List.filter_append ..

namespace Verbatim

theorem visible_gap (left right : Token) : (gap left right).visible = [] := by
  unfold gap
  split <;> rfl

theorem visible_join (tokens : List Token) :
    (join tokens).visible = (Grammar.literals tokens).visible := by
  induction tokens with
  | nil => rfl
  | cons left rest ih =>
    have first : Grammar.literals (left :: rest) = left.literal ++ Grammar.literals rest :=
      List.flatMap_cons
    rw [first, Bytes.visible_append, ← ih]
    cases rest with
    | nil => exact (List.append_nil _).symm
    | cons right rest =>
      rw [join, Bytes.visible_append, Bytes.visible_append, visible_gap, List.append_nil]

end Verbatim

/-- Text kept as written is made of the literals of its tokens, but for spaces and comments. -/
theorem visible_verbatim (tokens : List Token) :
    (verbatim tokens).visible = (Grammar.literals (Verbatim.kept tokens)).visible :=
  Verbatim.visible_join _

/-- True of the kinds of token that leave their bytes behind in a selector. -/
def Kind.isShown : Kind → Bool
  | .comment => false
  | .openBrace => false
  | .eof => false
  | _ => true

namespace Parser

/-- The tokens that stand before `parser` and no longer before `after` leave the bytes behind, but
for spaces and comments, and none of them opens a block. -/
def Leaves (parser after : Parser) (bytes : Bytes) : Prop :=
  ∃ front, parser.ahead = front ++ after.ahead ∧ (∀ token ∈ front, token.kind ≠ .openBrace) ∧
    (Grammar.literals (Verbatim.kept front)).visible = bytes.visible

namespace Leaves

variable {parser middle after : Parser} {left right : Bytes}

theorem refl : parser.Leaves parser [] := ⟨[], rfl, List.forall_mem_nil _, rfl⟩

theorem trans (near : parser.Leaves middle left) (far : middle.Leaves after right) :
    parser.Leaves after (left ++ right) := by
  obtain ⟨first, split, plain, same⟩ := near
  obtain ⟨second, again, others, more⟩ := far
  refine ⟨first ++ second, ?_, List.forall_mem_append.2 ⟨plain, others⟩, ?_⟩
  · rw [split, again, List.append_assoc]
  · have literals : Grammar.literals (Verbatim.kept (first ++ second)) =
        Grammar.literals (Verbatim.kept first) ++ Grammar.literals (Verbatim.kept second) := by
      rw [Verbatim.kept_append]
      exact List.flatMap_append
    rw [literals, Bytes.visible_append, Bytes.visible_append, same, more]

/-- Tokens kept as written. -/
theorem written {front : List Token} (split : parser.ahead = front ++ after.ahead)
    (plain : ∀ token ∈ front, token.kind ≠ .openBrace) :
    parser.Leaves after (verbatim front) :=
  ⟨front, split, plain, (visible_verbatim front).symm⟩

theorem token (shown : parser.current.kind.isShown = true) :
    parser.Leaves (parser.skip 1) parser.current.literal := by
  have other {kind : Kind} (hidden : kind.isShown = false) : parser.current.kind ≠ kind := by
    rintro rfl
    exact Bool.false_ne_true (hidden.symm.trans shown)
  refine ⟨[parser.current], Parser.ahead_eq_skip (other rfl), ?_, ?_⟩
  · exact List.forall_mem_singleton.2 (other rfl)
  · rw [Verbatim.kept_cons (other rfl)]
    exact congrArg Bytes.visible (List.append_nil _)

theorem comment (is : parser.current.kind = .comment) : parser.Leaves (parser.skip 1) [] := by
  refine ⟨[parser.current], Parser.ahead_eq_skip (is.trans_ne nofun), ?_, ?_⟩
  · exact List.forall_mem_singleton.2 (is.trans_ne nofun)
  · rw [Verbatim.kept_cons_comment is]
    rfl

end Leaves

end Parser

namespace Grammar

variable {tokens : List Token} {parser : Parser}

open Quietly

/-- What atoms are made of, one after the other. -/
def atomBytes (atoms : List SelectorAtom) : Bytes := atoms.flatMap (·.value)

theorem atomBytes_single (kind : SelectorKind) (value : Bytes) :
    atomBytes [⟨kind, value⟩] = value :=
  List.append_nil value

theorem take_leaves {span : List Token → Nat}
    (plain : ∀ token ∈ parser.ahead.take (span parser.ahead), token.kind ≠ .openBrace) :
    (take span).Quietly tokens parser fun found after => parser.Leaves after (verbatim found) :=
  fun _ _ => .written (List.take_append_drop _ _).symm plain

theorem take_before_plain (ahead : List Token) :
    ∀ token ∈ ahead.take (Span.before endsAttribute ahead), token.kind ≠ .openBrace := by
  intro token member opens
  rw [take_before] at member
  have going := List.mem_takeWhile_imp member
  rw [endsAttribute, opens] at going
  exact Bool.noConfusion going

theorem take_inside_plain (opened : Nat) (ahead : List Token) :
    ∀ token ∈ ahead.take (Span.inside (fun _ => false) opened ahead),
      token.kind ≠ .openBrace := by
  intro token member
  have level := Span.inside_level (fun _ => false) opened ahead token member
  exact kind_ne_of_going (fun _ _ => rfl) level

/-- The current token is an atom of its own. -/
theorem tokenAtom_leaves {kind : SelectorKind} (shown : parser.current.kind.isShown = true) :
    (tokenAtom kind parser.current).Quietly tokens parser fun atoms after =>
      parser.Leaves after (atomBytes atoms) := by
  refine after (pure ?_)
  rw [atomBytes_single]
  exact .token shown

theorem markedName_leaves {kind : SelectorKind} {place : String}
    (shown : parser.current.kind.isShown = true) :
    (markedName parser.current kind place).Quietly tokens parser fun atoms after =>
      parser.Leaves after (atomBytes atoms) := by
  refine after (Quietly.current (ite (fun name => after (pure ?_)) fun _ => report))
  rw [atomBytes_single]
  exact (Parser.Leaves.token shown).trans (.token (name ▸ rfl))

section Brackets

variable (written : ∀ token ∈ tokens, token.kind ≠ .eof → token.Spelled)
include written

/-- What is always written in one way leaves that behind. -/
theorem punctuation_leaves {kind : Kind} {spelling : Bytes} (last : parser.ahead <:+ tokens)
    (is : parser.current.kind = kind) (shown : kind.isShown = true)
    (spells : kind.spelling? = some spelling) : parser.Leaves (parser.skip 1) spelling := by
  subst is
  have notEnd : parser.current.kind ≠ .eof := by
    intro ended
    rw [ended] at shown
    exact Bool.noConfusion shown
  have among : parser.current ∈ tokens :=
    last.subset (Parser.ahead_eq_skip notEnd ▸ List.mem_cons_self)
  rw [← (written _ among notEnd).fixed spelling spells]
  exact .token shown

/-- The brackets of an attribute test are those of its tokens. -/
theorem attributeAtom_leaves (opens : parser.current.kind = .openBracket) :
    attributeAtom.Quietly tokens parser fun atom after => parser.Leaves after atom.value := by
  refine within fun last => after (bind (take_leaves (take_before_plain _)) ?_)
  refine fun test middle is => within fun behind => expect fun closes => pure ?_
  have inner := (punctuation_leaves written last opens rfl rfl).trans is
  exact inner.trans (punctuation_leaves written behind closes rfl rfl)

end Brackets

/-- An argument is kept as written from one parenthesis to the other. -/
theorem pseudoArgument_leaves (opens : parser.current.kind = .openParen) :
    pseudoArgument.Quietly tokens parser fun bytes after => parser.Leaves after bytes := by
  let inner := (parser.skip 1).ahead.take (Span.inside (fun _ => false) 0 (parser.skip 1).ahead)
  let middle := (parser.skip 1).skip (Span.inside (fun _ => false) 0 (parser.skip 1).ahead)
  have first : parser.ahead = parser.current :: (inner ++ middle.ahead) := by
    rw [Parser.ahead_eq_skip (opens.trans_ne nofun)]
    exact congrArg (_ :: ·) (List.take_append_drop _ _).symm
  refine Quietly.current (after (after (Quietly.current (expect fun closes => pure ?_))))
  have last : middle.ahead = middle.current :: (middle.skip 1).ahead :=
    Parser.ahead_eq_skip (closes.trans_ne nofun)
  have whole : parser.ahead =
      parser.current :: inner ++ [middle.current] ++ (middle.skip 1).ahead := by
    rw [first, last]
    simp
  refine .written whole (List.forall_mem_append.2 ⟨List.forall_mem_cons.2 ⟨?_, ?_⟩, ?_⟩)
  · exact opens.trans_ne nofun
  · exact take_inside_plain 0 _
  · exact List.forall_mem_singleton.2 (closes.trans_ne nofun)

theorem optionalArgument_leaves :
    optionalArgument.Quietly tokens parser fun bytes after => parser.Leaves after bytes :=
  look (ite (fun opens => pseudoArgument_leaves (currentIs_iff.1 opens)) fun _ => pure .refl)

theorem pseudoAtom_leaves (shown : parser.current.kind.isShown = true) :
    (pseudoAtom parser.current).Quietly tokens parser fun atoms after =>
      parser.Leaves after (atomBytes atoms) := by
  refine after (Quietly.current (ite (fun name => after ?_) fun _ => report))
  refine returning optionalArgument_leaves fun argument last is => ?_
  rw [atomBytes_single]
  exact ((Parser.Leaves.token shown).trans (.token (name ▸ rfl))).trans is

theorem ruleSetBlock_taken {room : Nat} {ruleSet atRule : Reading (Option Node)}
    (opens : parser.current.kind = .openBrace) :
    ∃ rest, (ruleSetBlock room ruleSet atRule).taken parser = parser.current :: rest := by
  unfold ruleSetBlock
  rw [taken_bind, taken_advance (opens.trans_ne nofun)]
  exact ⟨_, rfl⟩

section Rule

variable (written : ∀ token ∈ tokens, token.kind ≠ .eof → token.Spelled)
include written

theorem selectorAtom_leaves :
    selectorAtom.Quietly tokens parser fun atoms after =>
      parser.Leaves after (atomBytes atoms) := by
  apply Quietly.current
  split
  next is => exact after (pure (.comment is))
  next is => exact tokenAtom_leaves (is ▸ rfl)
  next is => exact tokenAtom_leaves (is ▸ rfl)
  next is => exact markedName_leaves (is ▸ rfl)
  next is => exact markedName_leaves (is ▸ rfl)
  next is => exact tokenAtom_leaves (is ▸ rfl)
  next is =>
    refine returning (attributeAtom_leaves written is) fun atom last leaves => ?_
    rwa [atomBytes_single]
  next is => exact pseudoAtom_leaves (is ▸ rfl)
  next is => exact pseudoAtom_leaves (is ▸ rfl)
  next is => exact tokenAtom_leaves (is ▸ rfl)
  next is => exact tokenAtom_leaves (is ▸ rfl)
  next is => exact tokenAtom_leaves (is ▸ rfl)
  next is => exact tokenAtom_leaves (is ▸ rfl)
  next => exact report

theorem selectors_leave :
    (collect Token.isStructural selectorAtom).Quietly tokens parser fun atoms after =>
      parser.Leaves after (atomBytes atoms) := by
  refine collect_quietly (fun atoms middle _ before => ?_) .refl
  refine (selectorAtom_leaves written).mono fun more last is => ?_
  rw [atomBytes, List.flatMap_append]
  exact before.trans is

/-- The block of a rule-set is read where its atoms end, from its `{` on. -/
theorem ruleSetWith_leaves {block : Reading (Option (List Node))} :
    (ruleSetWith block).Quietly tokens parser fun found after =>
      IfAny (fun node => ∃ atoms rules middle, node = .ruleSet atoms rules ∧
        parser.Leaves middle (atomBytes atoms) ∧ middle.current.kind = .openBrace ∧
        after = (block middle).2 ∧ block.found middle = []) found := by
  refine bind (selectors_leave written) fun atoms middle leaves => ?_
  refine look (ite (fun opens _ quiet node is => ?_) fun _ => report)
  obtain ⟨rules, -, rfl⟩ := Option.map_eq_some_iff.1 is
  refine ⟨atoms, rules, middle, rfl, leaves, currentIs_iff.1 opens, rfl, ?_⟩
  rw [found_bind] at quiet
  exact (List.append_eq_nil_iff.1 quiet).1

/-- Up to the `{` of its block a rule-set takes the tokens that its atoms are made of. -/
theorem ruleSet_leaves {room : Nat} :
    (ruleSet room).Quietly tokens parser fun found after =>
      IfAny (fun node => ∃ atoms rules prelude opening block, node = .ruleSet atoms rules ∧
        parser.ahead = prelude ++ opening :: block ++ after.ahead ∧ opening.kind = .openBrace ∧
        (∀ token ∈ prelude, token.kind ≠ .openBrace) ∧
        (literals (Verbatim.kept prelude)).visible = (atomBytes atoms).visible) found := by
  cases room with
  | zero =>
    refine (ruleSetWith_leaves written).mono fun found after each node is => ?_
    obtain ⟨_, _, middle, _, _, _, _, quiet⟩ := each node is
    exact absurd quiet (by simp [refusedBlock, found_bind])
  | succ room =>
    refine (ruleSetWith_leaves written).mono fun found after each node is => ?_
    obtain ⟨atoms, rules, middle, same, ⟨prelude, split, plain, shown⟩, opens, rfl, -⟩ :=
      each node is
    obtain ⟨rest, taken⟩ := ruleSetBlock_taken opens
    refine ⟨atoms, rules, prelude, middle.current, rest, same, ?_, opens, plain, shown⟩
    rw [split, List.append_assoc, ← taken, taken_append]

end Rule

end Grammar

/-- Where a rule-set is read without a problem, the values of its atoms one after the other are the
tokens before the `{` of its block, but for comments and spaces. No token before that `{` is one. -/
theorem ruleSet_conserves (source : Bytes) (room : Nat) (parser : Parser) (node : Node)
    (among : parser.ahead ⊆ tokenize source) (unlimited : parser.settings.maxErrors = none)
    (found : (Grammar.ruleSet room parser).1 = some node)
    (clean : (Grammar.ruleSet room parser).2.errors = parser.errors) :
    ∃ atoms rules prelude opening block, node = .ruleSet atoms rules ∧
      (Grammar.ruleSet room).taken parser = prelude ++ opening :: block ∧
      opening.kind = .openBrace ∧ (∀ token ∈ prelude, token.kind ≠ .openBrace) ∧
      Bytes.visible (atoms.flatMap (·.value)) =
        Bytes.visible (Grammar.literals (Verbatim.kept prelude)) := by
  have written : ∀ token ∈ parser.ahead, token.kind ≠ .eof → token.Spelled :=
    fun token member => tokenize_spelled source token (among member)
  have each := (Grammar.ruleSet_leaves written).holds List.suffix_rfl unlimited clean
  obtain ⟨atoms, rules, prelude, opening, block, same, split, opens, plain, shown⟩ :=
    each node found
  exact ⟨atoms, rules, prelude, opening, block, same, taken_eq split.symm, opens, plain,
    shown.symm⟩

/-- A selector inside a block, with a string in an attribute test, an argument in an argument, a
comment and a color that stands for an id. -/
theorem ruleSet_conserves_nested :
    ∃ source parser node, source =
        utf8 "x \x7b a#b [ c = \"d e\"] :not( .f,:g(h))/*i*/ > #abc::j \x7b k: l \x7d \x7d" ∧
      parser = (Parser.ofTokens .standard (tokenize source)).skip 2 ∧
      (Grammar.ruleSet 2 parser).1 = some node ∧
      (Grammar.ruleSet 2 parser).2.errors = parser.errors ∧
      ∃ atoms rules prelude opening block, node = .ruleSet atoms rules ∧
        (Grammar.ruleSet 2).taken parser = prelude ++ opening :: block ∧
        opening.kind = .openBrace ∧ (∀ token ∈ prelude, token.kind ≠ .openBrace) ∧
        Bytes.visible (atoms.flatMap (·.value)) =
          Bytes.visible (Grammar.literals (Verbatim.kept prelude)) := by
  obtain ⟨source, text⟩ : ∃ source, source = utf8
    "x \x7b a#b [ c = \"d e\"] :not( .f,:g(h))/*i*/ > #abc::j \x7b k: l \x7d \x7d" := ⟨_, rfl⟩
  obtain ⟨parser, is⟩ : ∃ parser,
    parser = (Parser.ofTokens .standard (tokenize source)).skip 2 := ⟨_, rfl⟩
  have some : (Grammar.ruleSet 2 parser).1.isSome = true := by
    rw [is, text]
    decide +kernel
  obtain ⟨node, found⟩ := Option.isSome_iff_exists.1 some
  have clean : (Grammar.ruleSet 2 parser).2.errors = parser.errors := by
    rw [is, text]
    decide +kernel
  have among : parser.ahead ⊆ tokenize source := by
    rw [is, text]
    decide +kernel
  have unlimited : parser.settings.maxErrors = none := by
    rw [is, text]
    decide +kernel
  exact ⟨source, parser, node, text, is, found, clean,
    ruleSet_conserves source 2 parser node among unlimited found clean⟩

end CssSyntax

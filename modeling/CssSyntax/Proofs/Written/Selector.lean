import CssSyntax.Proofs.Grammar.Progress
import CssSyntax.Proofs.Nesting.Skip
import CssSyntax.Proofs.Parser.Reads

/-! Selectors as they are written, and that they are read atom by atom. -/

namespace CssSyntax.Written

open Grammar Reading

/-- The argument of a pseudo class: in it each parenthesis has its counterpart, and no token is
structural. -/
inductive Argument : List Token → Prop
  | nil : Argument []
  | token {token : Token} {rest : List Token} (plain : token.isStructural = false)
      (opens : token.kind ≠ .openParen) (closes : token.kind ≠ .closeParen)
      (later : Argument rest) : Argument (token :: rest)
  | group {opening closing : Token} {inner rest : List Token} (opens : opening.kind = .openParen)
      (inside : Argument inner) (closes : closing.kind = .closeParen) (later : Argument rest) :
      Argument (opening :: (inner ++ closing :: rest))

/-- Tokens and the part of a selector that they stand for. -/
inductive Atom : List Token → SelectorAtom → Prop
  | element {token : Token} (is : token.kind = .ident ∨ token.kind = .asterisk) :
      Atom [token] ⟨.element, token.literal⟩
  | combinator {token : Token}
      (is : token.kind = .comma ∨ token.kind = .greater ∨ token.kind = .plus ∨
        token.kind = .tilde) :
      Atom [token] ⟨.combinator, token.literal⟩
  | className {dot name : Token} (mark : dot.kind = .dot) (is : name.kind = .ident) :
      Atom [dot, name] ⟨.className, dot.literal ++ name.literal⟩
  | idName {hash name : Token} (mark : hash.kind = .hash) (is : name.kind = .ident) :
      Atom [hash, name] ⟨.idName, hash.literal ++ name.literal⟩
  | color {color : Token} (is : color.kind = .color) : Atom [color] ⟨.idName, color.literal⟩
  | attributeMatch {opening closing : Token} {test : List Token}
      (opens : opening.kind = .openBracket) (inside : ∀ token ∈ test, endsAttribute token = false)
      (closes : closing.kind = .closeBracket) :
      Atom (opening :: (test ++ [closing]))
        ⟨.attributeMatch, utf8 "[" ++ verbatim test ++ utf8 "]"⟩
  | pseudo {colons name : Token} (mark : colons.kind = .colon ∨ colons.kind = .doubleColon)
      (is : name.kind = .ident) : Atom [colons, name] ⟨.pseudo, colons.literal ++ name.literal⟩
  | pseudoCall {colons name opening closing : Token} {inner : List Token}
      (mark : colons.kind = .colon ∨ colons.kind = .doubleColon) (is : name.kind = .ident)
      (opens : opening.kind = .openParen) (inside : Argument inner)
      (closes : closing.kind = .closeParen) :
      Atom (colons :: name :: opening :: (inner ++ [closing]))
        ⟨.pseudo, colons.literal ++ name.literal ++ verbatim (opening :: inner ++ [closing])⟩

/-- Tokens and the parts of the selector that they stand for. -/
inductive Selector : List Token → List SelectorAtom → Prop
  | nil : Selector [] []
  | cons {front rest : List Token} {atom : SelectorAtom} {atoms : List SelectorAtom}
      (first : Atom front atom) (later : Selector rest atoms) :
      Selector (front ++ rest) (atom :: atoms)

variable {token mark name opening closing : Token} {tokens rest inner test : List Token}
variable {atom : SelectorAtom} {atoms : List SelectorAtom}

section Stretches

theorem inside_token (plain : token.isStructural = false) (opens : token.kind ≠ .openParen)
    (closes : token.kind ≠ .closeParen) (opened : Nat) (rest : List Token) :
    Span.inside (fun _ => false) opened (token :: rest) =
      Span.inside (fun _ => false) opened rest + 1 := by
  simp [Span.inside, plain]

theorem inside_opening (opens : opening.kind = .openParen) (opened : Nat) (rest : List Token) :
    Span.inside (fun _ => false) opened (opening :: rest) =
      Span.inside (fun _ => false) (opened + 1) rest + 1 := by
  simp [Span.inside, opens, Token.isStructural]

theorem inside_closing (closes : closing.kind = .closeParen) (opened : Nat) (rest : List Token) :
    Span.inside (fun _ => false) (opened + 1) (closing :: rest) =
      Span.inside (fun _ => false) opened rest + 1 := by
  simp [Span.inside, closes, Token.isStructural]

theorem inside_closed (closes : closing.kind = .closeParen) (rest : List Token) :
    Span.inside (fun _ => false) 0 (closing :: rest) = 0 := by
  simp [Span.inside, closes, Token.isStructural]

/-- An argument leaves open the parentheses that were open before it. -/
theorem Argument.inside_append (written : Argument tokens) (opened : Nat) (rest : List Token) :
    Span.inside (fun _ => false) opened (tokens ++ rest) =
      Span.inside (fun _ => false) opened rest + tokens.length := by
  induction written generalizing opened rest with
  | nil => rfl
  | token plain opens closes _ ih =>
    rw [List.cons_append, inside_token plain opens closes, ih]
    rfl
  | group opens _ closes _ inside ih =>
    rw [List.cons_append, List.append_assoc, List.cons_append, inside_opening opens, inside,
      inside_closing closes, ih]
    simp only [List.length_cons, List.length_append]
    omega

/-- Up to the parenthesis behind it, an argument is the inside of its group. -/
theorem Argument.inside_eq (written : Argument inner) (closes : closing.kind = .closeParen)
    (rest : List Token) :
    Span.inside (fun _ => false) 0 (inner ++ closing :: rest) = inner.length := by
  rw [written.inside_append, inside_closed closes, Nat.zero_add]

theorem before_append {stop : Token → Bool} (going : ∀ token ∈ tokens, stop token = false)
    (stopped : stop token = true) (rest : List Token) :
    Span.before stop (tokens ++ token :: rest) = tokens.length := by
  unfold Span.before
  rw [List.takeWhile_append_of_pos fun other member => by simp [going other member],
    List.takeWhile_cons_of_neg (by simp [stopped]), List.append_nil]

end Stretches

section Atoms

theorem tokenAtom_reads (kind : SelectorKind) :
    (tokenAtom kind token).Reads [token] rest [⟨kind, token.literal⟩] :=
  .advancing .pure

theorem markedName_reads (kind : SelectorKind) (place : String) (is : name.kind = .ident) :
    (markedName mark kind place).Reads [mark, name] rest
      [⟨kind, mark.literal ++ name.literal⟩] := by
  refine .advancing (.current rfl ?_)
  rw [if_pos is]
  exact .advancing .pure

theorem attributeAtom_reads (inside : ∀ token ∈ test, endsAttribute token = false)
    (closes : closing.kind = .closeBracket) :
    attributeAtom.Reads (opening :: (test ++ [closing])) rest
      ⟨.attributeMatch, utf8 "[" ++ verbatim test ++ utf8 "]"⟩ := by
  have stopped : endsAttribute closing = true := by simp [endsAttribute, closes]
  have ends : Span.before endsAttribute (test ++ ([closing] ++ rest)) = test.length :=
    before_append inside stopped rest
  exact .advancing (.bind (.take ends) (.expect closes .pure))

theorem pseudoArgument_reads (inside : Argument inner) (closes : closing.kind = .closeParen) :
    pseudoArgument.Reads (opening :: (inner ++ [closing])) rest
      (verbatim (opening :: inner ++ [closing])) := by
  have argument : (take (Span.inside (fun _ => false) 0)).Reads inner ([closing] ++ rest) inner :=
    .take (inside.inside_eq closes rest)
  exact .current rfl (.advancing (.bind argument (.current rfl (.expect closes .pure))))

theorem pseudoAtom_reads (mark : Token) {argument : Bytes} (is : name.kind = .ident)
    (follows : optionalArgument.Reads tokens rest argument) :
    (pseudoAtom mark).Reads (mark :: name :: tokens) rest
      [⟨.pseudo, mark.literal ++ name.literal ++ argument⟩] := by
  refine .advancing (.current rfl ?_)
  rw [if_pos is]
  exact .advancing (.returning follows)

theorem colons_reads {colons : Token} {found : List SelectorAtom}
    (mark : colons.kind = .colon ∨ colons.kind = .doubleColon)
    (follows : (pseudoAtom colons).Reads (colons :: tokens) rest found) :
    selectorAtom.Reads (colons :: tokens) rest found := by
  refine .current rfl ?_
  rcases mark with mark | mark
  · simp only [mark]
    exact follows
  · simp only [mark]
    exact follows

theorem noArgument_reads (alone : ∀ next ∈ rest.head?, next.kind ≠ .openParen) :
    optionalArgument.Reads [] rest [] := by
  refine .look_false (fun parser ahead => ?_) .pure
  rw [currentIs_iff]
  unfold Parser.current Parser.nth
  rw [ahead]
  cases rest with
  | nil => exact nofun
  | cons next others => exact alone next rfl

theorem argument_reads (opens : opening.kind = .openParen) (inside : Argument inner)
    (closes : closing.kind = .closeParen) :
    optionalArgument.Reads (opening :: (inner ++ [closing])) rest
      (verbatim (opening :: inner ++ [closing])) :=
  .currentIs rfl opens (pseudoArgument_reads inside closes)

/-- A part of a selector is read as such, unless it seems to go on with an argument. -/
theorem Atom.reads (written : Atom tokens atom)
    (alone : ∀ next ∈ rest.head?, next.kind ≠ .openParen) :
    selectorAtom.Reads tokens rest [atom] := by
  cases written with
  | element is =>
    refine .current rfl ?_
    rcases is with is | is
    · simp only [is]
      exact tokenAtom_reads .element
    · simp only [is]
      exact tokenAtom_reads .element
  | combinator is =>
    refine .current rfl ?_
    rcases is with is | is | is | is
    all_goals
      simp only [is]
      exact tokenAtom_reads .combinator
  | className mark is =>
    refine .current rfl ?_
    simp only [mark]
    exact markedName_reads .className _ is
  | idName mark is =>
    refine .current rfl ?_
    simp only [mark]
    exact markedName_reads .idName _ is
  | color is =>
    refine .current rfl ?_
    simp only [is]
    exact tokenAtom_reads .idName
  | attributeMatch opens inside closes =>
    refine .current rfl ?_
    simp only [opens]
    exact .returning (attributeAtom_reads inside closes)
  | pseudo mark is =>
    simpa using colons_reads mark (pseudoAtom_reads _ is (noArgument_reads alone))
  | pseudoCall mark is opens inside closes =>
    exact colons_reads mark (pseudoAtom_reads _ is (argument_reads opens inside closes))

theorem parts_of_kind {kind : Kind} (is : token.kind = kind)
    (plain : Token.isStructural ⟨kind, [], .start⟩ = false) (other : kind ≠ .openParen) :
    token.isStructural = false ∧ token.kind ≠ .openParen :=
  ⟨(Token.isStructural_of_kind is).trans plain, is ▸ other⟩

/-- A part of a selector starts with a token that could not go on with what is before it. -/
theorem Atom.starts (written : Atom tokens atom) :
    ∃ first others, tokens = first :: others ∧ first.isStructural = false ∧
      first.kind ≠ .openParen := by
  cases written with
  | element is =>
    exact ⟨_, _, rfl, is.elim (parts_of_kind · rfl nofun) (parts_of_kind · rfl nofun)⟩
  | combinator is =>
    refine ⟨_, _, rfl, ?_⟩
    rcases is with is | is | is | is <;> exact parts_of_kind is rfl nofun
  | className mark _ => exact ⟨_, _, rfl, parts_of_kind mark rfl nofun⟩
  | idName mark _ => exact ⟨_, _, rfl, parts_of_kind mark rfl nofun⟩
  | color is => exact ⟨_, _, rfl, parts_of_kind is rfl nofun⟩
  | attributeMatch opens _ _ => exact ⟨_, _, rfl, parts_of_kind opens rfl nofun⟩
  | pseudo mark _ =>
    exact ⟨_, _, rfl, mark.elim (parts_of_kind · rfl nofun) (parts_of_kind · rfl nofun)⟩
  | pseudoCall mark _ _ _ _ =>
    exact ⟨_, _, rfl, mark.elim (parts_of_kind · rfl nofun) (parts_of_kind · rfl nofun)⟩

theorem Selector.starts (written : Selector tokens atoms) :
    ∀ next ∈ tokens.head?, next.kind ≠ .openParen := by
  cases written with
  | nil => exact nofun
  | cons first _ =>
    obtain ⟨head, tail, rfl, _, other⟩ := first.starts
    intro next is
    obtain rfl := Option.some.inj is
    exact other

/-- A selector that is written right is read up to the token that ends it. -/
theorem Selector.reads (written : Selector tokens atoms) (opens : token.kind = .openBrace) :
    (collect Token.isStructural selectorAtom).Reads tokens (token :: rest) atoms := by
  induction written with
  | nil => exact .collect_nil (by simp [Token.isStructural, opens])
  | cons first later ih =>
    have behind : ∀ next ∈ (token :: rest).head?, next.kind ≠ .openParen := by
      intro next is
      obtain rfl := Option.some.inj is
      simp [opens]
    have alone := head_append later.starts behind
    obtain ⟨head, tail, rfl, going, _⟩ := first.starts
    have read := first.reads alone
    exact .collect_cons selectorAtom_advances going read ih

end Atoms

end CssSyntax.Written

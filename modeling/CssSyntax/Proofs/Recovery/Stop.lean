import CssSyntax.Proofs.Recovery.Boundary
import CssSyntax.Proofs.Relocation.Place

/-! Where the four recoveries stop. What each of them goes up to is said by the brackets in front of
a token, and the counter of the recovery is shown to be right about them at every token that it
goes over. -/

namespace CssSyntax

open Brace

namespace Boundary

/-- The rest of a block: behind the first `}` with which no more `{` than `}` were read. -/
def block : Boundary where
  before _ token := token.kind = .eof
  behind front token := token.kind = .closeBrace ∧
    (braces (front ++ [token])).count .opening ≤ (braces (front ++ [token])).count .closing

/-- The rest of a declaration: behind the first semicolon, or before a `}`. -/
def declaration : Boundary where
  before _ token := token.kind = .closeBrace ∨ token.kind = .eof
  behind _ token := token.kind = .semicolon

/-- The rest of a group: behind the first `)` that closes none of the group's own parentheses, or
before a token that the structure of the sheet depends on. -/
def group : Boundary where
  before _ token := token.isStructural = true
  behind front token := token.kind = .closeParen ∧ ¬Pairs (parens front)

/-- A rule: behind the first semicolon outside of braces or behind the `}` of the first `{`, or
before a `}` that closes none of the rule's own braces. -/
def atRule : Boundary where
  before front token := token.kind = .eof ∨ token.kind = .closeBrace ∧ ¬Pairs (braces front)
  behind front token := token.kind = .semicolon ∧ Whole (braces front) ∨
    token.kind = .closeBrace ∧ PairsFirst (braces front)

section Counters

variable {front : List Token} {token : Token} {opened : Nat}

theorem braces_opening (opens : token.kind = .openBrace) :
    braces (front ++ [token]) = braces front ++ [.opening] := by
  rw [braces_append, braces_cons_opening opens, braces_nil]

theorem braces_closing (closes : token.kind = .closeBrace) :
    braces (front ++ [token]) = braces front ++ [.closing] := by
  rw [braces_append, braces_cons_closing closes, braces_nil]

theorem braces_plain (notOpening : token.kind ≠ .openBrace)
    (notClosing : token.kind ≠ .closeBrace) : braces (front ++ [token]) = braces front := by
  rw [braces_append, braces_cons_plain (brace?_eq_none notOpening notClosing), braces_nil,
    List.append_nil]

theorem parens_opening (opens : token.kind = .openParen) :
    parens (front ++ [token]) = parens front ++ [.opening] := by
  simp [parens, Kind.paren?, opens]

theorem parens_closing (closes : token.kind = .closeParen) :
    parens (front ++ [token]) = parens front ++ [.closing] := by
  simp [parens, Kind.paren?, closes]

theorem parens_plain (notOpening : token.kind ≠ .openParen)
    (notClosing : token.kind ≠ .closeParen) : parens (front ++ [token]) = parens front := by
  have none : token.kind.paren? = none := by
    unfold Kind.paren?
    split
    next opens => exact absurd opens notOpening
    next closes => exact absurd closes notClosing
    next => rfl
  simp [parens, none]

end Counters

section Spans

variable {front tokens : List Token} {opened : Nat}

theorem block_endsFrom (counted : depth 0 (braces front) = some opened) :
    block.EndsFrom front tokens (Span.block opened tokens) := by
  fun_induction Span.block opened tokens generalizing front with
  | case1 => exact .nil
  | case2 opened token rest ended => exact .before ended
  | case3 opened token rest opens ih =>
    refine .further (by simp [block, opens]) (by simp [block, opens]) (ih ?_)
    rw [braces_opening opens]
    exact depth_opening counted
  | case4 opened token rest closes last =>
    refine .behind (by simp [block, closes]) ⟨closes, ?_⟩
    rw [braces_closing closes]
    exact (closing_enough_iff counted).2 last
  | case5 opened token rest closes more ih =>
    obtain ⟨inner, rfl⟩ : ∃ inner, opened = inner + 1 := ⟨opened - 1, by omega⟩
    refine .further (by simp [block, closes]) ?_ (ih ?_)
    · rintro ⟨-, enough⟩
      rw [braces_closing closes] at enough
      exact more ((closing_enough_iff counted).1 enough)
    · rw [braces_closing closes]
      exact depth_closing counted
  | case6 opened token rest notEnd notOpening notClosing ih =>
    refine .further notEnd (fun stops => notClosing stops.1) (ih ?_)
    rwa [braces_plain notOpening notClosing]

theorem declaration_endsFrom : declaration.EndsFrom front tokens (Span.declaration tokens) := by
  fun_induction Span.declaration tokens generalizing front with
  | case1 => exact .nil
  | case2 token rest ended => exact .before (.inr ended)
  | case3 token rest closes => exact .before (.inl closes)
  | case4 token rest semicolon => exact .behind (by simp [declaration, semicolon]) semicolon
  | case5 token rest notEnd notClosing notSemicolon ih =>
    exact .further (not_or.2 ⟨notClosing, notEnd⟩) notSemicolon ih

theorem group_endsFrom (counted : depth 0 (parens front) = some opened) :
    group.EndsFrom front tokens (Span.group opened tokens) := by
  fun_induction Span.group opened tokens generalizing front with
  | case1 => exact .nil
  | case2 opened token rest structural => exact .before structural
  | case3 opened token rest going opens ih =>
    refine .further going (by simp [group, opens]) (ih ?_)
    rw [parens_opening opens]
    exact depth_opening counted
  | case4 token rest going closes =>
    exact .behind going ⟨closes, fun pairs => (pairs_iff counted).1 pairs rfl⟩
  | case5 opened token rest going closes inner ih =>
    refine .further going (fun stops => stops.2 ((pairs_iff counted).2 inner)) (ih ?_)
    obtain ⟨less, rfl⟩ := Nat.exists_eq_succ_of_ne_zero inner
    rw [parens_closing closes]
    exact depth_closing counted
  | case6 opened token rest going notOpening notClosing ih =>
    refine .further going (fun stops => notClosing stops.1) (ih ?_)
    rwa [parens_plain notOpening notClosing]

/-- So many blocks of a rule are open behind the word: the first bracket of the word opened the
block of the rule, and this block is still open. -/
inductive Inside : Nat → List Brace → Prop where
  | prelude : Inside 0 []
  | block {more : Nat} {inner : List Brace} (counted : depth 0 inner = some more) :
      Inside (more + 1) (.opening :: inner)

namespace Inside

variable {word : List Brace}

theorem depth_eq (inside : Inside opened word) : depth 0 word = some opened := by
  cases inside with
  | prelude => rfl
  | block counted => exact depth_add 1 counted

theorem opening (inside : Inside opened word) : Inside (opened + 1) (word ++ [.opening]) := by
  cases inside with
  | prelude => exact .block rfl
  | block counted => exact .block (depth_opening counted)

theorem closing (inside : Inside (opened + 2) word) : Inside (opened + 1) (word ++ [.closing]) := by
  cases inside with
  | block counted => exact .block (depth_closing counted)

theorem pairsFirst_iff (inside : Inside opened word) : PairsFirst word ↔ opened = 1 := by
  cases inside with
  | prelude => simp [PairsFirst]
  | block counted => simp [Brace.pairsFirst_iff, Brace.Balanced, counted]

end Inside

theorem atRule_endsFrom (inside : Inside opened (braces front)) :
    atRule.EndsFrom front tokens (Span.atRule opened tokens) := by
  fun_induction Span.atRule opened tokens generalizing front with
  | case1 => exact .nil
  | case2 opened token rest ended => exact .before (.inl ended)
  | case3 token rest semicolon =>
    have outside := (whole_iff inside.depth_eq).2 rfl
    exact .behind (by simp [atRule, semicolon]) (.inl ⟨semicolon, outside⟩)
  | case4 opened token rest semicolon enclosed ih =>
    have within := mt (whole_iff inside.depth_eq).1 enclosed
    refine .further (by simp [atRule, semicolon]) (by simp [atRule, semicolon, within]) (ih ?_)
    rwa [braces_plain (by simp [semicolon]) (by simp [semicolon])]
  | case5 opened token rest opens ih =>
    refine .further (by simp [atRule, opens]) (by simp [atRule, opens]) (ih ?_)
    rw [braces_opening opens]
    exact inside.opening
  | case6 token rest closes =>
    have unpaired : ¬Pairs (braces front) := fun pairs => (pairs_iff inside.depth_eq).1 pairs rfl
    exact .before (.inr ⟨closes, unpaired⟩)
  | case7 token rest closes =>
    have paired := (pairs_iff inside.depth_eq).2 Nat.one_ne_zero
    have first := inside.pairsFirst_iff.2 rfl
    exact .behind (by simp [atRule, closes, paired]) (.inr ⟨closes, first⟩)
  | case8 opened token rest closes notZero notOne ih =>
    have paired := (pairs_iff inside.depth_eq).2 notZero
    have inner := mt inside.pairsFirst_iff.1 notOne
    obtain ⟨less, rfl⟩ : ∃ less, opened = less + 2 := ⟨opened - 2, by omega⟩
    refine .further (by simp [atRule, closes, paired]) (by simp [atRule, closes, inner]) (ih ?_)
    rw [braces_closing closes]
    exact inside.closing
  | case9 opened token rest notEnd notSemicolon notOpening notClosing ih =>
    have closes (braced : Prop) : ¬(token.kind = .closeBrace ∧ braced) :=
      fun stops => notClosing stops.1
    have goes : ¬atRule.before front token := not_or.2 ⟨notEnd, closes _⟩
    have further : ¬atRule.behind front token :=
      not_or.2 ⟨fun stops => notSemicolon stops.1, closes _⟩
    refine .further goes further (ih ?_)
    rwa [braces_plain notOpening notClosing]

end Spans

end Boundary

/-- The recovery leaves the parser where the tokens ahead have their first boundary, with nothing
but tokens taken, and at the end of the input if they have none. -/
structure Reading.StopsAt (recovery : Reading Unit) (boundary : Boundary) (parser : Parser) :
    Prop where
  stops : ∃ count, recovery parser = ((), parser.skip count) ∧
    ∀ other, boundary.Ends parser.ahead other ↔ other = count
  finish : boundary.Passes parser.ahead → (recovery parser).2.atEnd = true

theorem Reading.stopsAt_of_span {span : List Token → Nat} {boundary : Boundary} {parser : Parser}
    (ends : boundary.Ends parser.ahead (span parser.ahead)) :
    (Reading.skip span).StopsAt boundary parser where
  stops := by
    refine ⟨span parser.ahead, rfl, fun _ => ⟨fun other => other.unique ends, ?_⟩⟩
    rintro rfl
    exact ends
  finish passes := by
    have all : span parser.ahead = parser.ahead.length := ends.unique (.never passes)
    have none : (parser.skip (span parser.ahead)).ahead = [] := by
      rw [all]
      exact List.drop_length
    change (parser.skip (span parser.ahead)).atEnd = true
    simp [Parser.atEnd, Parser.currentIs, Parser.current, Parser.nth, none, Token.endOfInput]

/-- Each recovery stops at its boundary and nowhere else, from wherever it starts. -/
theorem recoveries_stop (parser : Parser) :
    Reading.skipBlock.StopsAt .block parser ∧
      Reading.skipDeclaration.StopsAt .declaration parser ∧
      Reading.skipGroup.StopsAt .group parser ∧
      Reading.skipAtRule.StopsAt .atRule parser := by
  refine ⟨?_, ?_, ?_, ?_⟩
  · exact Reading.stopsAt_of_span (Boundary.block_endsFrom rfl).ends
  · exact Reading.stopsAt_of_span Boundary.declaration_endsFrom.ends
  · exact Reading.stopsAt_of_span (Boundary.group_endsFrom rfl).ends
  · exact Reading.stopsAt_of_span (Boundary.atRule_endsFrom .prelude).ends

end CssSyntax

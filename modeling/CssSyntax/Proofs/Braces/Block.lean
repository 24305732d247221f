import CssSyntax.Proofs.Braces.Value

/-! Blocks: what is read from after a `{` ends after the `}` of the same block, and what is dropped
from a `{` on is a whole block. -/

namespace CssSyntax.Grammar

open Reading Mirrors Brace

variable {α β : Type} {parser : Parser} {room : Nat}

section Spans

/-- What is taken closes all the blocks that are open, or it is all there is. -/
def ClosesAll (opened : Nat) (taken rest : List Token) : Prop :=
  depth opened (braces taken) = some 0 ∨
    rest = [] ∧ ∃ after, depth opened (braces taken) = some after

theorem ClosesAll.plain {opened : Nat} {token : Token} {taken rest : List Token}
    (plain : token.brace? = none) (closes : ClosesAll opened taken rest) :
    ClosesAll opened (token :: taken) rest := by
  unfold ClosesAll
  rw [braces_cons_plain plain]
  exact closes

theorem ClosesAll.opening {opened : Nat} {token : Token} {taken rest : List Token}
    (opens : token.kind = .openBrace) (closes : ClosesAll (opened + 1) taken rest) :
    ClosesAll opened (token :: taken) rest := by
  unfold ClosesAll
  rw [braces_cons_opening opens]
  exact closes

theorem ClosesAll.closing {opened : Nat} {token : Token} {taken rest : List Token}
    (isClosing : token.kind = .closeBrace) (inside : 1 ≤ opened)
    (closes : ClosesAll (opened - 1) taken rest) : ClosesAll opened (token :: taken) rest := by
  obtain ⟨outer, rfl⟩ : ∃ outer, opened = outer + 1 := ⟨opened - 1, by omega⟩
  unfold ClosesAll
  rw [braces_cons_closing isClosing]
  exact closes

/-- A skipped at-rule is a statement or whole blocks. -/
theorem atRule_closesAll (opened : Nat) (tokens : List Token)
    (noEnd : ∀ token ∈ tokens, token.kind ≠ .eof) :
    ClosesAll opened (tokens.take (Span.atRule opened tokens))
      (tokens.drop (Span.atRule opened tokens)) := by
  fun_induction Span.atRule opened tokens with
  | case1 opened => exact .inr ⟨rfl, opened, rfl⟩
  | case2 opened token rest ended => exact absurd ended (noEnd token List.mem_cons_self)
  | case3 token rest semicolon => exact .plain (brace?_of_kind semicolon) (.inl rfl)
  | case4 opened token rest semicolon inside ih =>
    exact .plain (brace?_of_kind semicolon) (ih fun other member => noEnd other (.tail _ member))
  | case5 opened token rest opens ih =>
    exact .opening opens (ih fun other member => noEnd other (.tail _ member))
  | case6 token rest closes => exact .inl rfl
  | case7 token rest closes => exact .closing closes (Nat.le_refl 1) (.inl rfl)
  | case8 opened token rest closes notZero notOne ih =>
    exact .closing closes (by omega) (ih fun other member => noEnd other (.tail _ member))
  | case9 opened token rest notEnd notSemicolon notOpening notClosing ih =>
    exact .plain (brace?_eq_none notOpening notClosing)
      (ih fun other member => noEnd other (.tail _ member))

/-- A block that is skipped from inside is skipped with its closing brace. -/
theorem block_closesAll (opened : Nat) (tokens : List Token) (inside : 1 ≤ opened)
    (noEnd : ∀ token ∈ tokens, token.kind ≠ .eof) :
    ClosesAll opened (tokens.take (Span.block opened tokens))
      (tokens.drop (Span.block opened tokens)) := by
  fun_induction Span.block opened tokens with
  | case1 opened => exact .inr ⟨rfl, opened, rfl⟩
  | case2 opened token rest ended => exact absurd ended (noEnd token List.mem_cons_self)
  | case3 opened token rest opens ih =>
    exact .opening opens (ih (by omega) fun other member => noEnd other (.tail _ member))
  | case4 opened token rest closes last =>
    obtain rfl : opened = 1 := by omega
    exact .closing closes inside (.inl rfl)
  | case5 opened token rest closes more ih =>
    exact .closing closes inside
      (ih (by omega) fun other member => noEnd other (.tail _ member))
  | case6 opened token rest notEnd notOpening notClosing ih =>
    exact .plain (brace?_eq_none notOpening notClosing)
      (ih inside fun other member => noEnd other (.tail _ member))

theorem skipAtRule_level : skipAtRule.StaysLevel parser :=
  .skip fun noEnd => atRule_closesAll 0 parser.ahead noEnd

theorem skipBlock_level (opens : parser.current.kind = .openBrace) :
    skipBlock.StaysLevel parser := by
  refine .skip fun noEnd => ?_
  obtain ⟨rest, split⟩ := Parser.ahead_eq_cons (kind_ne_eof_of_eq opens nofun)
  have span : Span.block 0 (parser.current :: rest) = Span.block 1 rest + 1 := by
    simp [Span.block, opens]
  rw [split] at noEnd ⊢
  rw [span, List.take_succ_cons, List.drop_succ_cons]
  exact ClosesAll.opening opens (block_closesAll 1 rest (Nat.le_refl 1)
    fun other member => noEnd other (.tail _ member))

end Spans

section Bodies

theorem closeBlock_of_closing {place : String} (closes : parser.current.kind = .closeBrace) :
    closeBlock place parser = advance parser := by
  change (if parser.currentIs .closeBrace = true then _ else _ : Reading Unit) parser = _
  rw [if_pos (currentIs_iff.2 closes)]

theorem closeBlock_of_other {place : String} (other : parser.current.kind ≠ .closeBrace) :
    closeBlock place parser = report (.noClosing place) parser := by
  change (if parser.currentIs .closeBrace = true then _ else _ : Reading Unit) parser = _
  rw [if_neg fun holds => other (currentIs_iff.1 holds)]

theorem ahead_of_end (noEnd : ∀ token ∈ parser.ahead, token.kind ≠ .eof)
    (ended : parser.current.kind = .eof) : parser.ahead = [] := by
  cases split : parser.ahead with
  | nil => rfl
  | cons token rest =>
    have here : parser.current = token := by simp [Parser.current, Parser.nth, split]
    rw [here] at ended
    exact absurd ended (noEnd token (split ▸ List.mem_cons_self))

theorem closeBlock_closes {place : String} (stopped : endsBlock parser.current = true) :
    (closeBlock place).Closes parser noBraces := by
  by_cases closes : parser.current.kind = .closeBrace
  · have taken : (closeBlock place).taken parser = [parser.current] := by
      unfold taken
      rw [closeBlock_of_closing closes]
      exact taken_advance (kind_ne_eof_of_eq closes nofun)
    constructor
    · intro _
      exact .inl ⟨[], parser.current, taken, closes, Balanced.nil⟩
    · intro _ _
      rw [taken, braces_cons_closing closes]
      exact ⟨rfl, Balanced.nil⟩
  · have ended : parser.current.kind = .eof := by simpa [endsBlock, closes] using stopped
    constructor
    · intro calm
      have empty := ahead_of_end calm.noEnd ended
      have none := taken_append (closeBlock place) parser
      rw [empty] at none
      obtain ⟨taken, rest⟩ := List.append_eq_nil_iff.1 none
      rw [taken]
      exact .inr ⟨rest, Balanced.nil.opens⟩
    · intro _ quiet
      have other : (parser.withErrors none []).current.kind ≠ .closeBrace := closes
      unfold found at quiet
      rw [closeBlock_of_other other] at quiet
      exact absurd quiet (List.cons_ne_nil _ _)

/-- A block of members that stay on their level ends with its own closing brace. -/
theorem blockBody_closes {place : String} {member : Reading (List α)} {single : α → List Brace}
    (advances : Advances endsBlock member)
    (mirrors : ∀ parser, endsBlock parser.current = false →
      member.Mirrors parser fun found => found.flatMap single) (parser : Parser) :
    (blockBody place member).Closes parser fun found => found.flatMap single := by
  have members := collect_mirrors advances mirrors parser
  have closing : (do
      closeBlock place
      return (collect endsBlock member parser).1).Closes
        (collect endsBlock member parser).2 noBraces := by
    rw [bind_pure_comp]
    apply Closes.map
    exact closeBlock_closes (collect_stops advances parser)
  have whole : (blockBody place member).Closes parser _ := Closes.after members closing
  exact whole.congr (List.append_nil _)

/-- A block from its `{` on, given what is read of it from after the `{`. -/
theorem advance_body_mirrors {body : Reading α} {change : α → β} {inner : α → List Brace}
    {word : β → List Brace} (opens : parser.current.kind = .openBrace)
    (closes : ∀ parser, body.Closes parser inner)
    (same : ∀ found, word (change found) = block (inner found)) :
    (advance >>= fun _ => body >>= fun found => Pure.pure (change found)).Mirrors parser word := by
  have whole : ((advance >>= fun _ => body) >>= fun found => Pure.pure (change found)).Mirrors
      parser word := by
    apply Mirrors.returning
    exact (Closes.block opens (closes _)).congr (same _).symm
  rwa [bind_assoc] at whole

/-- A block with what stands before it. Without its `{` the block is dropped by the table. -/
theorem blockWith_mirrors {prelude : String} {body : Reading α} {inner : α → List Brace}
    {word : Option α → List Brace}
    (listed : parser.current.kind = .openBrace ∨ (.noOpening prelude, .block) ∈ Recovery.table)
    (closes : ∀ parser, body.Closes parser inner)
    (same : ∀ found, word (some found) = block (inner found)) :
    (blockWith prelude body).Mirrors parser word := by
  refine expect (fun opens => ?_) fun other => ?_
  · exact advance_body_mirrors opens closes same
  · exact recover .block (listed.resolve_left other)

/-- A block whose content is changed into what the block stands for. -/
theorem blockWith_map_mirrors {prelude : String} {body : Reading α} {change : α → β}
    {inner : α → List Brace} {word : Option β → List Brace}
    (listed : (.noOpening prelude, .block) ∈ Recovery.table)
    (closes : ∀ parser, body.Closes parser inner)
    (same : ∀ found, word (some (change found)) = block (inner found)) :
    (blockWith prelude (change <$> body)).Mirrors parser word := by
  refine expect (fun opens => ?_) fun _ => recover .block listed
  have whole : (do
      advance
      return some (change (← body))).Mirrors parser word := advance_body_mirrors opens closes same
  rw [← bind_map_left] at whole
  exact whole

theorem declarations_closes (place : String) (parser : Parser) :
    (declarations room place).Closes parser noBraces := by
  have closes : (declarations room place).Closes parser fun found => found.flatMap noBraces :=
    blockBody_closes blockDeclaration_advances
      (fun _ _ => blockDeclaration_mirrors.congr (flatMap_noBraces _).symm) parser
  exact closes.congr (flatMap_noBraces _)

/-- A block of declarations is a pair of braces with none between them. -/
theorem declarationBlock_mirrors {place : String} {word : Option (List Declaration) → List Brace}
    (listed : parser.current.kind = .openBrace ∨ (.noOpening place, .block) ∈ Recovery.table)
    (same : ∀ found, word (some found) = block []) :
    (declarationBlock room place).Mirrors parser word :=
  blockWith_mirrors listed (declarations_closes place) same

end Bodies

end CssSyntax.Grammar

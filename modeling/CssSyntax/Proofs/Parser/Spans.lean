import CssSyntax.Parser.Span

/-! How far a stretch of tokens reaches: no group goes past a structural token. It depends on the
kinds of the tokens, and on no more than its stop set sees of them. -/

namespace CssSyntax.Span

section Level

/-- One token more in front of a stretch. -/
theorem plain_cons {token : Token} {rest : List Token} {count : Nat}
    (plain : token.isStructural = false)
    (others : ∀ other ∈ rest.take count, other.isStructural = false) :
    ∀ other ∈ (token :: rest).take (count + 1), other.isStructural = false :=
  List.forall_mem_cons.2 ⟨plain, others⟩

/-- A group never goes past a structural token. -/
theorem group_level (opened : Nat) (tokens : List Token) :
    ∀ token ∈ tokens.take (group opened tokens), token.isStructural = false := by
  fun_induction group opened tokens with
  | case1 => simp
  | case2 => simp
  | case3 opened token rest going opens ih => exact plain_cons (by simpa using going) ih
  | case4 token rest going closes => exact plain_cons (by simpa using going) (by simp)
  | case5 opened token rest going closes inner ih => exact plain_cons (by simpa using going) ih
  | case6 opened token rest going notOpen notClose ih => exact plain_cons (by simpa using going) ih

theorem inside_level (stop : Token → Bool) (opened : Nat) (tokens : List Token) :
    ∀ token ∈ tokens.take (inside stop opened tokens), token.isStructural = false := by
  fun_induction inside stop opened tokens with
  | case1 => simp
  | case2 => simp
  | case3 => simp
  | case4 opened token rest going notStop opens ih => exact plain_cons (by simpa using going) ih
  | case5 => simp
  | case6 opened token rest going notStop closes inner ih =>
    exact plain_cons (by simpa using going) ih
  | case7 opened token rest going notStop notOpen notClose ih =>
    exact plain_cons (by simpa using going) ih

end Level

section Kinds

variable {change : Token → Token} (kinds : ∀ token, (change token).kind = token.kind)
include kinds

theorem isStructural_of_kinds (token : Token) :
    (change token).isStructural = token.isStructural := by
  unfold Token.isStructural
  rw [kinds]

omit kinds in
theorem before_map (change : Token → Token) {stop : Token → Bool}
    (blind : ∀ token, stop (change token) = stop token) (tokens : List Token) :
    before stop (tokens.map change) = before stop tokens := by
  unfold before
  have same : (fun token => !stop token) ∘ change = fun token => !stop token :=
    funext fun token => congrArg _ (blind token)
  rw [List.takeWhile_map, List.length_map, same]

theorem block_map (opened : Nat) (tokens : List Token) :
    block opened (tokens.map change) = block opened tokens := by
  induction tokens generalizing opened with
  | nil => rfl
  | cons token rest ih => simp only [List.map_cons, block, kinds, ih]

theorem declaration_map (tokens : List Token) :
    declaration (tokens.map change) = declaration tokens := by
  induction tokens with
  | nil => rfl
  | cons token rest ih => simp only [List.map_cons, declaration, kinds, ih]

theorem inside_map {stop : Token → Bool} (blind : ∀ token, stop (change token) = stop token)
    (opened : Nat) (tokens : List Token) :
    inside stop opened (tokens.map change) = inside stop opened tokens := by
  induction tokens generalizing opened with
  | nil => rfl
  | cons token rest ih =>
    simp only [List.map_cons, inside, kinds, isStructural_of_kinds kinds, blind, ih]

theorem group_map (opened : Nat) (tokens : List Token) :
    group opened (tokens.map change) = group opened tokens := by
  induction tokens generalizing opened with
  | nil => rfl
  | cons token rest ih =>
    simp only [List.map_cons, group, kinds, isStructural_of_kinds kinds, ih]

theorem atRule_map (opened : Nat) (tokens : List Token) :
    atRule opened (tokens.map change) = atRule opened tokens := by
  induction tokens generalizing opened with
  | nil => rfl
  | cons token rest ih => simp only [List.map_cons, atRule, kinds, ih]

end Kinds

end CssSyntax.Span

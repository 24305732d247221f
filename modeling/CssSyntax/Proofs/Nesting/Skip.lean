import CssSyntax.Proofs.Parser.Trace

/-! Readings that keep step with a skip. Without room a construct is dropped up to the bracket that
ends it, and the skip counts nothing but brackets. A reading tracks such a skip if, whenever it
finds no problem, the skip from before it ends where the rest of the skip from after it ends. -/

namespace CssSyntax

namespace Span

/-- What is left after a stretch. -/
def past (span : List Token → Nat) (tokens : List Token) : List Token := tokens.drop (span tokens)

/-- The token is part of the stretch, and `after` says how it goes on. -/
def Steps (span after : List Token → Nat) (token : Token) : Prop :=
  ∀ rest, span (token :: rest) = after rest + 1

/-- The stretch goes on past all tokens but structural ones. -/
def Goes (span : List Token → Nat) : Prop :=
  ∀ token, token.isStructural = false → Steps span span token

variable {span after : List Token → Nat}

theorem past_nil : past span [] = [] := List.drop_nil

theorem past_cons {token : Token} (steps : Steps span after token) (rest : List Token) :
    past span (token :: rest) = past after rest := by
  unfold past
  rw [steps rest, List.drop_succ_cons]

theorem past_drop_before {stop : Token → Bool}
    (steps : ∀ token, stop token = false → Steps span span token) (tokens : List Token) :
    past span (tokens.drop (before stop tokens)) = past span tokens := by
  induction tokens with
  | nil => rfl
  | cons token rest ih =>
    unfold before at ih ⊢
    rw [List.takeWhile_cons]
    by_cases stops : stop token = true
    · rw [stops]
      rfl
    · rw [Bool.eq_false_iff.2 stops, Bool.not_false, if_pos rfl, List.length_cons,
        List.drop_succ_cons, ih, past_cons (steps token (Bool.eq_false_iff.2 stops))]

end Span

/-- A skip that counts the brackets it is in. It goes over all tokens but those where it gives up,
however many brackets are open then. -/
structure Skipper (opens closes : Kind) (stops : Token → Bool) where
  level : Nat → List Token → Nat
  plain : ∀ opened token, token.kind ≠ opens → token.kind ≠ closes → stops token = false →
    Span.Steps (level (opened + 1)) (level (opened + 1)) token
  opening : ∀ opened token, token.kind = opens →
    Span.Steps (level (opened + 1)) (level (opened + 2)) token
  closing : ∀ opened token, token.kind = closes →
    Span.Steps (level (opened + 1)) (level opened) token
  stopped : ∀ opened other token rest, stops token = true →
    level (opened + 1) (token :: rest) = level (other + 1) (token :: rest)

/-- A skip over groups in parentheses, up to a structural token at most. -/
abbrev GroupSkipper := Skipper .openParen .closeParen Token.isStructural

/-- A skip over blocks in braces, up to the end of the input at most. -/
abbrev BlockSkipper := Skipper .openBrace .closeBrace fun token => token.kind == .eof

theorem Token.isStructural_of_kind {token : Token} {kind : Kind} (is : token.kind = kind) :
    token.isStructural = Token.isStructural ⟨kind, [], .start⟩ := by
  rw [← is]
  rfl

theorem Token.kind_ne_of_plain {token : Token} (plain : token.isStructural = false) :
    token.kind ≠ .openBrace ∧ token.kind ≠ .closeBrace ∧ token.kind ≠ .semicolon ∧
      token.kind ≠ .eof := by
  simpa [Token.isStructural, and_assoc] using plain

namespace Skipper

/-- The rest of a group with its `)`. Past the group there is nothing to skip. -/
def groups : GroupSkipper where
  level
    | 0 => fun _ => 0
    | opened + 1 => Span.group opened
  plain opened token notOpening notClosing going rest := by
    simp only [Span.group, going, Bool.false_eq_true, if_false]
  opening opened token opens rest := by
    simp [Span.group, opens, Token.isStructural]
  closing opened token closes rest := by
    cases opened with
    | zero => simp [Span.group, closes, Token.isStructural]
    | succ opened => simp [Span.group, closes, Token.isStructural]
  stopped opened other token rest structural := by
    simp only [Span.group, structural, if_true]

/-- The rest of a block with its `}`. -/
def blocks : BlockSkipper where
  level
    | 0 => fun _ => 0
    | opened + 1 => Span.block (opened + 1)
  plain opened token notOpening notClosing going rest := by
    simp only [Span.block]
    split
    next ended => simp [ended] at going
    next opens => exact absurd opens notOpening
    next closes => exact absurd closes notClosing
    next => rfl
  opening opened token opens rest := by
    simp [Span.block, opens]
  closing opened token closes rest := by
    cases opened with
    | zero => simp [Span.block, closes]
    | succ opened => simp [Span.block, closes]
  stopped opened other token rest ended := by
    simp only [Span.block, eq_of_beq ended]

/-- The rest of an at-rule from inside its block. -/
def rules : BlockSkipper where
  level
    | 0 => fun _ => 0
    | opened + 1 => Span.atRule (opened + 1)
  plain opened token notOpening notClosing going rest := by
    simp only [Span.atRule]
    split
    next ended => simp [ended] at going
    next => rw [if_neg (Nat.succ_ne_zero opened)]
    next opens => exact absurd opens notOpening
    next closes => exact absurd closes notClosing
    next => rfl
  opening opened token opens rest := by
    simp [Span.atRule, opens]
  closing opened token closes rest := by
    cases opened with
    | zero => simp [Span.atRule, closes]
    | succ opened => simp [Span.atRule, closes]
  stopped opened other token rest ended := by
    simp only [Span.atRule, eq_of_beq ended]

/-- A skip that does not count parentheses. -/
def flat {near : List Token → Nat} (goes : Span.Goes near) : GroupSkipper where
  level _ := near
  plain _ token _ _ going := goes token going
  opening _ token opens := goes token (Token.isStructural_of_kind opens)
  closing _ token closes := goes token (Token.isStructural_of_kind closes)
  stopped _ _ _ _ _ := rfl

/-- Where a rule may start: what stands before its block is not counted, a semicolon ends it, and
its block is one more than the `opened` ones around it. -/
structure Starts (skipper : BlockSkipper) (opened : Nat) (near : List Token → Nat) : Prop where
  goes : Span.Goes near
  semicolon : ∀ token, token.kind = .semicolon → Span.Steps near (skipper.level opened) token
  block : ∀ token, token.kind = .openBrace → Span.Steps near (skipper.level (opened + 1)) token

theorem goes (skipper : BlockSkipper) (opened : Nat) :
    Span.Goes (skipper.level (opened + 1)) := by
  intro token plain
  obtain ⟨notOpening, notClosing, _, notEnd⟩ := Token.kind_ne_of_plain plain
  exact skipper.plain opened token notOpening notClosing (beq_eq_false_iff_ne.2 notEnd)

/-- A rule in a block. -/
theorem starts (skipper : BlockSkipper) (opened : Nat) :
    skipper.Starts (opened + 1) (skipper.level (opened + 1)) where
  goes := skipper.goes opened
  semicolon token is := skipper.plain opened token (by rw [is]; nofun) (by rw [is]; nofun)
    (by rw [is]; rfl)
  block := skipper.opening opened

/-- A rule that is skipped whole. -/
theorem rules_starts : rules.Starts 0 (Span.atRule 0) where
  goes token plain rest := by
    obtain ⟨notOpening, notClosing, notSemicolon, notEnd⟩ := Token.kind_ne_of_plain plain
    simp only [Span.atRule]
  semicolon token is rest := by simp [Span.atRule, is, rules]
  block token is rest := by simp [Span.atRule, is, rules]

end Skipper

end CssSyntax

import CssSyntax.Proofs.Braces.Rule
import CssSyntax.Proofs.Parser.Spans

/-! The same tokens at other places, with more tokens after them. A look at the tokens ahead shows
the same, apart from the places, if it cannot reach the tokens that were added: a brace or a
semicolon that is still ahead is where the looks of the grammar stop. -/

namespace CssSyntax

/-- Where the tokens go, what comes after them and where the input ends then. -/
structure Relocation where
  place : Position → Position
  more : List Token
  finish : Position

/-- True of the tokens that no look of the grammar goes past. -/
def Token.seals (token : Token) : Bool := token.kind == .closeBrace || token.kind == .semicolon

theorem Token.isStructural_of_seals {token : Token} (seals : token.seals = true) :
    token.isStructural = true := by
  unfold Token.isStructural
  rcases Bool.or_eq_true_iff.1 seals with closing | semicolon
  · simp [closing]
  · simp [semicolon]

theorem Token.seals_of_kind {token : Token} {kind : Kind} (is : token.kind = kind)
    (other : (kind == .closeBrace || kind == .semicolon) = false) : token.seals = false := by
  unfold Token.seals
  rw [is, other]

namespace Relocation

def token (relocation : Relocation) (token : Token) : Token :=
  { token with start := relocation.place token.start }

def parser (relocation : Relocation) (parser : Parser) : Parser :=
  { parser with
    ahead := parser.ahead.map relocation.token ++ relocation.more
    finish := relocation.finish }

/-- Two of the tokens touch at their new places if they touched before. -/
def Keeps (relocation : Relocation) (tokens : List Token) : Prop :=
  tokens.Pairwise fun left right =>
    ((relocation.token left).stop = (relocation.token right).start.offset ↔
      left.stop = right.start.offset)

/-- Nothing was added, and the end of the input went along. -/
structure Closed (relocation : Relocation) (parser : Parser) : Prop where
  nothing : relocation.more = []
  finish : relocation.finish = relocation.place parser.finish

/-- What was added is out of sight. -/
def Covers (relocation : Relocation) (parser : Parser) : Prop :=
  relocation.Closed parser ∨ ∃ token ∈ parser.ahead, token.seals = true

variable {relocation : Relocation} {parser : Parser}

@[simp]
theorem token_kind (token : Token) : (relocation.token token).kind = token.kind := rfl

@[simp]
theorem token_literal (token : Token) : (relocation.token token).literal = token.literal := rfl

@[simp]
theorem token_isStructural (token : Token) :
    (relocation.token token).isStructural = token.isStructural := rfl

@[simp]
theorem token_seals (token : Token) : (relocation.token token).seals = token.seals := rfl

@[simp]
theorem token_isWord (token : Token) (word : Bytes) :
    (relocation.token token).isWord word = token.isWord word := rfl

theorem Keeps.sublist {tokens some : List Token} (keeps : relocation.Keeps tokens)
    (part : some.Sublist tokens) : relocation.Keeps some :=
  List.Pairwise.sublist part keeps

/-- What is out of sight further on is out of sight before. -/
theorem Covers.of_follows {after : Parser} (covers : relocation.Covers after)
    (follows : parser.Follows after) : relocation.Covers parser := by
  rcases covers with ⟨nothing, finish⟩ | ⟨token, member, seals⟩
  · exact .inl ⟨nothing, follows.finish ▸ finish⟩
  · exact .inr ⟨token, follows.ahead.subset member, seals⟩

section Looks

theorem nth_of_length {count : Nat} (within : count < parser.ahead.length) :
    (relocation.parser parser).nth count = relocation.token (parser.nth count) := by
  unfold Parser.nth Relocation.parser
  dsimp only
  rw [List.getElem?_append_left (by simpa using within), List.getElem?_map,
    List.getElem?_eq_getElem within]
  rfl

theorem nth_of_closed (closed : relocation.Closed parser) (count : Nat) :
    (relocation.parser parser).nth count = relocation.token (parser.nth count) := by
  unfold Parser.nth Relocation.parser
  dsimp only
  rw [closed.nothing, List.append_nil, List.getElem?_map, closed.finish]
  cases parser.ahead[count]? <;> rfl

/-- A look gets as far as the first token that seals. -/
theorem nth_eq {count : Nat} (covers : relocation.Covers parser)
    (plain : ∀ before < count, (parser.nth before).seals = false) :
    (relocation.parser parser).nth count = relocation.token (parser.nth count) := by
  rcases covers with closed | ⟨token, member, seals⟩
  · exact nth_of_closed closed count
  · obtain ⟨index, within, rfl⟩ := List.getElem_of_mem member
    have reached : parser.nth index = parser.ahead[index] := by
      simp [Parser.nth, List.getElem?_eq_getElem within]
    have late : count ≤ index := by
      refine Nat.not_lt.1 fun early => ?_
      have unsealed := plain index early
      rw [reached, seals] at unsealed
      exact absurd unsealed.symm Bool.false_ne_true
    exact nth_of_length (Nat.lt_of_le_of_lt late within)

theorem current_eq (covers : relocation.Covers parser) :
    (relocation.parser parser).current = relocation.token parser.current :=
  nth_eq covers fun _ before => absurd before (Nat.not_lt_zero _)

theorem next_eq (covers : relocation.Covers parser) (plain : parser.current.seals = false) :
    (relocation.parser parser).next = relocation.token parser.next := by
  refine nth_eq covers fun before first => ?_
  obtain rfl := Nat.lt_one_iff.1 first
  exact plain

theorem currentIs_eq (covers : relocation.Covers parser) (kind : Kind) :
    (relocation.parser parser).currentIs kind = parser.currentIs kind := by
  unfold Parser.currentIs
  rw [current_eq covers]
  rfl

theorem nextIs_eq (covers : relocation.Covers parser) (plain : parser.current.seals = false)
    (kind : Kind) : (relocation.parser parser).nextIs kind = parser.nextIs kind := by
  unfold Parser.nextIs
  rw [next_eq covers plain]
  rfl

/-- Touching tokens are seen to touch, and others are not. -/
theorem isAdjacent_eq {count : Nat} (keeps : relocation.Keeps parser.ahead)
    (covers : relocation.Covers parser)
    (plain : ∀ before < count, (parser.nth before).seals = false) :
    (relocation.parser parser).isAdjacent count = parser.isAdjacent count := by
  cases count with
  | zero => rfl
  | succ count =>
    have left : (relocation.parser parser).nth count = relocation.token (parser.nth count) :=
      nth_eq covers fun before early => plain before (Nat.lt_succ_of_lt early)
    have right : (relocation.parser parser).nth (count + 1) =
        relocation.token (parser.nth (count + 1)) := nth_eq covers plain
    unfold Parser.isAdjacent
    rw [Nat.add_sub_cancel, left, right]
    by_cases within : count + 1 < parser.ahead.length
    · have pair := List.pairwise_iff_getElem.1 keeps count (count + 1) (Nat.lt_of_succ_lt within)
        within (Nat.lt_succ_self count)
      have first : parser.nth count = parser.ahead[count] := by
        simp [Parser.nth, List.getElem?_eq_getElem (Nat.lt_of_succ_lt within)]
      have second : parser.nth (count + 1) = parser.ahead[count + 1] := by
        simp [Parser.nth, List.getElem?_eq_getElem within]
      rw [first, second]
      have same : ((relocation.token parser.ahead[count]).stop ==
          (relocation.token parser.ahead[count + 1]).start.offset) =
            (parser.ahead[count].stop == parser.ahead[count + 1].start.offset) := by
        rw [Bool.eq_iff_iff, beq_iff_eq, beq_iff_eq, pair]
      rw [same]
      rfl
    · have none : parser.nth (count + 1) = Token.endOfInput parser.finish := by
        simp [Parser.nth, List.getElem?_eq_none (Nat.le_of_not_lt within)]
      rw [none]
      rfl

theorem blockFollows_eq (covers : relocation.Covers parser) :
    (relocation.parser parser).blockFollows = parser.blockFollows := by
  unfold Parser.blockFollows Relocation.parser
  dsimp only
  rw [List.find?_append, List.find?_map]
  cases found : parser.ahead.find? Token.isStructural with
  | some token =>
    have same : parser.ahead.find? (Token.isStructural ∘ relocation.token) = some token := found
    rw [same]
    rfl
  | none =>
    have same : parser.ahead.find? (Token.isStructural ∘ relocation.token) = none := found
    rcases covers with closed | ⟨token, member, seals⟩
    · rw [same, closed.nothing]
      rfl
    · have plain := List.find?_eq_none.1 found token member
      exact absurd (Token.isStructural_of_seals seals) plain

end Looks

end Relocation

namespace Span

/-- After `count` of the tokens one is left that seals. -/
def Leaves (tokens : List Token) (count : Nat) : Prop :=
  ∃ token ∈ tokens.drop count, token.seals = true

@[simp]
theorem not_leaves_nil (count : Nat) : ¬Leaves [] count := by
  simp [Leaves]

@[simp]
theorem leaves_cons_succ (token : Token) (rest : List Token) (count : Nat) :
    Leaves (token :: rest) (count + 1) ↔ Leaves rest count := Iff.rfl

/-- A stretch that leaves a token that seals reaches no further with more tokens after that. -/
def Settles (span : List Token → Nat) : Prop :=
  ∀ tokens more, Leaves tokens (span tokens) → span (tokens ++ more) = span tokens

theorem settles_const (count : Nat) : Settles fun _ => count := fun _ _ _ => rfl

theorem before_settles (stop : Token → Bool) : Settles (before stop) := by
  intro tokens more left
  induction tokens with
  | nil => exact absurd left (not_leaves_nil _)
  | cons token rest ih =>
    unfold before at ih left ⊢
    rw [List.cons_append, List.takeWhile_cons, List.takeWhile_cons]
    rw [List.takeWhile_cons] at left
    split
    next goes =>
      rw [if_pos goes, List.length_cons, leaves_cons_succ] at left
      rw [List.length_cons, List.length_cons, ih left]
    next => rfl

theorem block_settles (opened : Nat) : Settles (block opened) := by
  intro tokens more left
  fun_induction block opened tokens with
  | case1 => exact absurd left (not_leaves_nil _)
  | case5 opened token rest closes deep ih =>
    simp only [List.cons_append, block, closes, if_neg deep, ih left]
  | _ => simp_all [block]

theorem declaration_settles : Settles declaration := by
  intro tokens more left
  fun_induction declaration tokens with
  | case1 => exact absurd left (not_leaves_nil _)
  | _ => simp_all [declaration]

theorem inside_settles (stop : Token → Bool) (opened : Nat) : Settles (inside stop opened) := by
  intro tokens more left
  fun_induction inside stop opened tokens with
  | case1 => exact absurd left (not_leaves_nil _)
  | _ => simp_all [inside]

theorem group_settles (opened : Nat) : Settles (group opened) := by
  intro tokens more left
  fun_induction group opened tokens with
  | case1 => exact absurd left (not_leaves_nil _)
  | _ => simp_all [group]

theorem atRule_settles (opened : Nat) : Settles (atRule opened) := by
  intro tokens more left
  fun_induction atRule opened tokens with
  | case1 => exact absurd left (not_leaves_nil _)
  | _ => simp_all [atRule]

theorem glued_settles (stop : Nat) : Settles (glued stop) := by
  intro tokens more left
  fun_induction glued stop tokens with
  | case1 => exact absurd left (not_leaves_nil _)
  | _ => simp_all [glued]

theorem innerLayers_settles : Settles Grammar.innerLayers := by
  intro tokens more left
  fun_induction Grammar.innerLayers tokens with
  | case1 => simp_all [Grammar.innerLayers]
  | case2 => simp_all [Grammar.innerLayers]
  | case3 tokens short =>
    match tokens, short with
    | [], _ => exact absurd left (not_leaves_nil _)
    | [last], _ =>
      -- The last token seals, so it is not the point of an inner layer.
      obtain ⟨token, member, seals⟩ := left
      obtain rfl := List.mem_singleton.1 member
      cases more with
      | nil => rfl
      | cons name rest =>
        refine if_neg fun layer => ?_
        exact absurd seals (Bool.eq_false_iff.1 (Token.seals_of_kind layer.1 rfl))
    | point :: name :: rest, short => exact (short point name rest rfl).elim

end Span

namespace Relocation

variable {relocation : Relocation} {parser : Parser}

section Spans

/-- A stretch of tokens is as long at the new places as it was, if it is among the tokens that
were there, and the tokens added are out of sight after it. -/
theorem span_eq {left right : List Token → Nat} (settles : Span.Settles right)
    (same : right (parser.ahead.map relocation.token) = left parser.ahead)
    (covers : relocation.Covers (parser.skip (left parser.ahead))) :
    right (relocation.parser parser).ahead = left parser.ahead := by
  unfold Relocation.parser
  dsimp only
  rcases covers with closed | ⟨token, member, seals⟩
  · rw [closed.nothing, List.append_nil, same]
  · rw [settles _ _ ?_, same]
    rw [same]
    refine ⟨relocation.token token, ?_, seals⟩
    rw [← List.map_drop]
    exact List.mem_map_of_mem member

theorem length_of_covers {count : Nat} (covers : relocation.Covers (parser.skip count)) :
    relocation.more = [] ∨ count ≤ parser.ahead.length := by
  rcases covers with closed | ⟨token, member, _⟩
  · exact .inl closed.nothing
  · refine .inr (Nat.le_of_not_lt fun past => ?_)
    have none : (parser.skip count).ahead = [] := List.drop_eq_nil_of_le (Nat.le_of_lt past)
    rw [none] at member
    exact List.not_mem_nil member

theorem skip_eq {count : Nat} (reaches : relocation.more = [] ∨ count ≤ parser.ahead.length) :
    (relocation.parser parser).skip count = relocation.parser (parser.skip count) := by
  unfold Parser.skip Relocation.parser
  dsimp only
  rcases reaches with nothing | within
  · rw [nothing, List.append_nil, List.append_nil, List.map_drop]
  · rw [List.drop_append_of_le_length (by simpa using within), List.map_drop]

theorem take_eq {count : Nat} (reaches : relocation.more = [] ∨ count ≤ parser.ahead.length) :
    (relocation.parser parser).ahead.take count =
      (parser.ahead.take count).map relocation.token := by
  unfold Relocation.parser
  dsimp only
  rcases reaches with nothing | within
  · rw [nothing, List.append_nil, List.map_take]
  · rw [List.take_append_of_le_length (by simpa using within), List.map_take]

theorem glued_map {first : Token} {tokens : List Token}
    (keeps : relocation.Keeps (first :: tokens)) :
    Span.glued (relocation.token first).stop (tokens.map relocation.token) =
      Span.glued first.stop tokens := by
  induction tokens generalizing first with
  | nil => rfl
  | cons token rest ih =>
    have touching := (List.pairwise_cons.1 keeps).1 token List.mem_cons_self
    have follows := eq_comm.trans (touching.trans eq_comm)
    have further := ih (List.pairwise_cons.1 keeps).2
    simp only [List.map_cons, Span.glued, token_kind, further, follows]

theorem innerLayers_map {tokens : List Token} (keeps : relocation.Keeps tokens) :
    Grammar.innerLayers (tokens.map relocation.token) = Grammar.innerLayers tokens := by
  fun_induction Grammar.innerLayers tokens with
  | case1 point name rest layer ih =>
    have pair := List.pairwise_cons.1 keeps
    have touching := (pair.1 name List.mem_cons_self).2 layer.2.2
    have further := ih (List.pairwise_cons.1 pair.2).2
    simp only [List.map_cons, Grammar.innerLayers, token_kind, touching, layer, further, and_self,
      if_true]
  | case2 point name rest other =>
    have pair := List.pairwise_cons.1 keeps
    have touching := pair.1 name List.mem_cons_self
    simp only [List.map_cons, Grammar.innerLayers, token_kind, touching]
    exact if_neg other
  | case3 tokens short =>
    match tokens, short with
    | [], _ => rfl
    | [_], _ => rfl
    | point :: name :: rest, short => exact (short point name rest rfl).elim

end Spans

section Texts

theorem literals_map (tokens : List Token) :
    Grammar.literals (tokens.map relocation.token) = Grammar.literals tokens := by
  unfold Grammar.literals
  rw [List.flatMap_map]
  rfl

theorem kept_map (tokens : List Token) :
    Verbatim.kept (tokens.map relocation.token) =
      (Verbatim.kept tokens).map relocation.token := by
  unfold Verbatim.kept
  rw [List.filter_map]
  rfl

theorem join_map {tokens : List Token} (keeps : relocation.Keeps tokens) :
    Verbatim.join (tokens.map relocation.token) = Verbatim.join tokens := by
  match tokens with
  | [] => rfl
  | [_] => rfl
  | left :: right :: rest =>
    have pair := List.pairwise_cons.1 keeps
    have touching := pair.1 right List.mem_cons_self
    have further := join_map pair.2
    rw [List.map_cons] at further
    simp only [List.map_cons, Verbatim.join, Verbatim.gap, touching, token_literal, further]

/-- Text that is kept as written is the same at the new places. -/
theorem verbatim_map {tokens : List Token} (keeps : relocation.Keeps tokens) :
    verbatim (tokens.map relocation.token) = verbatim tokens := by
  unfold verbatim
  rw [kept_map]
  exact join_map (keeps.sublist List.filter_sublist)

end Texts

end Relocation

end CssSyntax

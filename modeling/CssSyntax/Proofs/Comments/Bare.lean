import CssSyntax.Parser.Verbatim
import CssSyntax.Proofs.Grammar.Progress
import Mathlib.Data.List.TakeWhile

/-! A parser whose comments are gone. Its looks show what the parser with the comments shows, if
they start at a token that is no comment: two tokens with a comment between them do not touch, and
a comment is neither a brace nor a semicolon. -/

namespace CssSyntax

open Verbatim

/-- Tokens as they stand in a source: one after the other, and none without bytes. -/
structure Laid (tokens : List Token) : Prop where
  ordered : tokens.Pairwise fun left right => left.stop ≤ right.start.offset
  written : ∀ token ∈ tokens, token.literal ≠ []

/-- No comment parts a name from an opening parenthesis. -/
def CallsWhole (tokens : List Token) : Prop :=
  ∀ name comment rest, name :: comment :: rest <:+ tokens → name.kind = .ident →
    comment.kind = .comment → ∀ follower ∈ (kept rest).head?, follower.kind ≠ .openParen

/-- Before the first structural token no comment parts a name from a name. -/
def WordsWhole (tokens : List Token) : Prop :=
  ∀ front name comment rest, front ++ name :: comment :: rest = tokens →
    (∀ token ∈ front, token.isStructural = false) → name.kind = .ident →
      comment.kind = .comment → ∀ follower ∈ (kept rest).head?, follower.kind ≠ .ident

/-- No comment parts two words of a font family that feature values are given for. -/
def FamiliesWhole (registry : Registry) (tokens : List Token) : Prop :=
  ∀ mark name rest, mark :: name :: rest <:+ tokens → mark.kind = .atSign →
    registry.lookup name.literal = some .fontFeatureValues → WordsWhole rest

/-- Comments part the token from what comes behind them. -/
def Parted (tokens : List Token) (token : Token) (behind : List Token) : Prop :=
  ∃ comment rest, token :: comment :: rest <:+ tokens ∧ comment.kind = .comment ∧
    kept rest = behind

/-- A comment is to blame for the problem. It stands where something else is asked for, or it parts
a `!` from its word, the name of a support declaration from its colon or a layer from the point of
an inner layer. -/
inductive Diagnostic.OfComment (tokens : List Token) : Diagnostic → Prop
  | met {diagnostic : Diagnostic} (is : diagnostic.token = .comment) : OfComment tokens diagnostic
  | important {mark word : Token} {rest : List Token} (parted : Parted tokens mark (word :: rest))
      (is : mark.kind = .exclamation) (follows : word.isWord Word.importantWord = true) :
      OfComment tokens (.ofToken (.misplaced "declaration value") mark)
  | declaration {name colon : Token} {rest : List Token}
      (parted : Parted tokens name (colon :: rest)) (is : name.kind = .ident)
      (follows : colon.kind = .colon) :
      OfComment tokens (.ofToken (.misplaced "supports condition") name)
  | layer {name point inner : Token} {rest : List Token}
      (parted : Parted tokens name (point :: inner :: rest)) (is : name.kind = .ident)
      (dot : point.kind = .dot) (follows : inner.kind = .ident)
      (touches : point.stop = inner.start.offset) :
      OfComment tokens (.ofToken (.misplaced "layer rule") point)

/-- No comment among the tokens is to blame for one of the problems. -/
def Blameless (tokens : List Token) (found : List Diagnostic) : Prop :=
  ∀ diagnostic ∈ found, ¬diagnostic.OfComment tokens

/-- A comment is neither a brace nor a semicolon. -/
theorem Token.plain_of_isStructural (token : Token) (structural : token.isStructural = true) :
    token.kind ≠ .comment := by
  intro is
  simp [isStructural, is] at structural

namespace Verbatim

theorem kept_cons_comment {token : Token} (is : token.kind = .comment) (rest : List Token) :
    kept (token :: rest) = kept rest :=
  List.filter_cons_of_neg (by simp [is])

theorem kept_cons {token : Token} (plain : token.kind ≠ .comment) (rest : List Token) :
    kept (token :: rest) = token :: kept rest :=
  List.filter_cons_of_pos (by simp [plain])

theorem kept_append (front back : List Token) : kept (front ++ back) = kept front ++ kept back :=
  List.filter_append ..

theorem kept_kept (tokens : List Token) : kept (kept tokens) = kept tokens := by
  unfold kept
  rw [List.filter_filter]
  simp

theorem kept_plain {tokens : List Token} : ∀ token ∈ kept tokens, token.kind ≠ .comment := by
  intro token member
  simpa using (List.mem_filter.1 member).2

theorem kept_eq_self {tokens : List Token} (plain : ∀ token ∈ tokens, token.kind ≠ .comment) :
    kept tokens = tokens :=
  List.filter_eq_self.2 fun token member => by simp [plain token member]

theorem kept_cons_kept (token : Token) (rest : List Token) :
    kept (token :: kept rest) = kept (token :: rest) := by
  unfold kept
  rw [List.filter_cons, List.filter_cons, List.filter_filter]
  simp

theorem verbatim_kept (tokens : List Token) : verbatim (kept tokens) = verbatim tokens := by
  unfold verbatim
  rw [kept_kept]

theorem verbatim_ne_nil {token : Token} {rest : List Token} (written : token.literal ≠ [])
    (plain : token.kind ≠ .comment) : verbatim (token :: rest) ≠ [] := by
  unfold verbatim
  rw [kept_cons plain]
  cases kept rest with
  | nil => exact written
  | cons next more =>
    have front : token.literal ++ gap token next ≠ [] :=
      List.append_ne_nil_of_left_ne_nil written _
    exact List.append_ne_nil_of_left_ne_nil front _

end Verbatim

namespace Laid

variable {tokens : List Token}

theorem suffix {some : List Token} (laid : Laid tokens) (part : some <:+ tokens) : Laid some :=
  ⟨laid.ordered.sublist part.sublist, fun token member =>
    laid.written token (part.subset member)⟩

/-- A token behind another one starts past its place by the bytes between them. -/
theorem stop_lt {left token : Token} {rest : List Token} (laid : Laid (left :: token :: rest)) :
    ∀ right ∈ rest, left.stop < right.start.offset := by
  intro right member
  have first := List.rel_of_pairwise_cons laid.ordered (List.mem_cons_self ..)
  have second := List.rel_of_pairwise_cons laid.ordered.of_cons member
  have member : token ∈ left :: token :: rest := List.mem_cons_of_mem _ List.mem_cons_self
  have some := List.length_pos_iff.2 (laid.written token member)
  unfold Token.stop at first second ⊢
  omega

end Laid

theorem CallsWhole.suffix {tokens some : List Token} (whole : CallsWhole tokens)
    (part : some <:+ tokens) : CallsWhole some :=
  fun name comment rest within => whole name comment rest (within.trans part)

theorem Parted.suffix {tokens some behind : List Token} {token : Token}
    (parted : Parted some token behind) (part : some <:+ tokens) : Parted tokens token behind := by
  obtain ⟨comment, rest, within, is, same⟩ := parted
  exact ⟨comment, rest, within.trans part, is, same⟩

/-- More tokens in front do not clear a comment. -/
theorem Diagnostic.OfComment.suffix {tokens some : List Token} {diagnostic : Diagnostic}
    (blamed : diagnostic.OfComment some) (part : some <:+ tokens) :
    diagnostic.OfComment tokens := by
  cases blamed with
  | met is => exact .met is
  | important parted is follows => exact .important (parted.suffix part) is follows
  | declaration parted is follows => exact .declaration (parted.suffix part) is follows
  | layer parted is dot follows touches => exact .layer (parted.suffix part) is dot follows touches

namespace Blameless

variable {tokens : List Token} {first second : List Diagnostic}

theorem suffix {some : List Token} (blameless : Blameless tokens first)
    (part : some <:+ tokens) : Blameless some first :=
  fun diagnostic member blamed => blameless diagnostic member (blamed.suffix part)

theorem append : Blameless tokens (first ++ second) ↔
    Blameless tokens first ∧ Blameless tokens second :=
  List.forall_mem_append

/-- A problem at a comment is a problem of the comment. -/
theorem plain {problem : Problem} {token : Token}
    (blameless : Blameless tokens [.ofToken problem token]) : token.kind ≠ .comment :=
  fun is => blameless _ List.mem_cons_self (.met is)

end Blameless

theorem WordsWhole.drop (front : List Token) {tokens : List Token}
    (whole : WordsWhole (front ++ tokens))
    (going : ∀ token ∈ front, token.isStructural = false) : WordsWhole tokens := by
  intro more name comment rest split further
  refine whole (front ++ more) name comment rest ?_ (List.forall_mem_append.2 ⟨going, further⟩)
  rw [List.append_assoc, split]

theorem FamiliesWhole.suffix {registry : Registry} {tokens some : List Token}
    (whole : FamiliesWhole registry tokens) (part : some <:+ tokens) :
    FamiliesWhole registry some :=
  fun mark name rest within => whole mark name rest (within.trans part)

namespace Parser

def bare (parser : Parser) : Parser := { parser with ahead := kept parser.ahead }

/-- What a parse with comments is asked to have. -/
structure Commented (parser : Parser) : Prop where
  dropped : parser.settings.keepComments = false
  laid : Laid parser.ahead
  calls : CallsWhole parser.ahead
  families : FamiliesWhole parser.settings.registry parser.ahead

variable {parser : Parser}

theorem Commented.of_follows {after : Parser} (commented : parser.Commented)
    (follows : parser.Follows after) : after.Commented where
  dropped := follows.settings ▸ commented.dropped
  laid := commented.laid.suffix follows.ahead
  calls := commented.calls.suffix follows.ahead
  families := follows.settings ▸ commented.families.suffix follows.ahead

section Looks

theorem current_bare (plain : parser.current.kind ≠ .comment) :
    parser.bare.current = parser.current := by
  obtain ⟨settings, ahead, finish, errors⟩ := parser
  cases ahead with
  | nil => rfl
  | cons token rest =>
    unfold bare
    rw [kept_cons (show token.kind ≠ .comment from plain)]
    rfl

theorem currentIs_bare (plain : parser.current.kind ≠ .comment) (kind : Kind) :
    parser.bare.currentIs kind = parser.currentIs kind := by
  unfold currentIs
  rw [current_bare plain]

/-- What follows the current token: no comment, and it is seen as it is, or comments, and then
nothing that touches the current token. -/
theorem next_bare (commented : parser.Commented) (plain : parser.current.kind ≠ .comment) :
    (parser.next.kind ≠ .comment ∧ parser.bare.next = parser.next ∧
      parser.bare.isAdjacent 1 = parser.isAdjacent 1) ∨
    (parser.next.kind = .comment ∧ parser.bare.isAdjacent 1 = false) := by
  obtain ⟨settings, ahead, finish, errors⟩ := parser
  match ahead with
  | [] => exact .inl ⟨plain, rfl, rfl⟩
  | [token] =>
    refine .inl ⟨nofun, ?_⟩
    unfold bare
    rw [kept_cons (show token.kind ≠ .comment from plain)]
    exact ⟨rfl, rfl⟩
  | token :: next :: rest =>
    unfold bare
    dsimp only
    rw [kept_cons (show token.kind ≠ .comment from plain)]
    by_cases is : next.kind = .comment
    · refine .inr ⟨is, ?_⟩
      rw [kept_cons_comment is]
      cases further : kept rest with
      | nil => rfl
      | cons right more =>
        have member : right ∈ rest :=
          (List.mem_filter.1 (further ▸ List.mem_cons_self : right ∈ kept rest)).1
        have apart := commented.laid.stop_lt right member
        simp [isAdjacent, nth, Nat.ne_of_lt apart]
    · refine .inl ⟨is, ?_⟩
      rw [kept_cons is]
      exact ⟨rfl, rfl⟩

/-- What is seen behind the current token without the comments is parted from it by them. -/
theorem parted_next {kind : Kind} (plain : parser.current.kind ≠ .comment)
    (comment : parser.next.kind = .comment) (follows : parser.bare.next.kind = kind)
    (more : kind ≠ .eof) :
    ∃ rest, Parted parser.ahead parser.current (parser.bare.next :: rest) := by
  obtain ⟨settings, ahead, finish, errors⟩ := parser
  match ahead with
  | [] => exact absurd comment nofun
  | [token] => exact absurd comment nofun
  | token :: next :: rest =>
    unfold bare at follows ⊢
    dsimp only at follows ⊢
    rw [kept_cons (show token.kind ≠ .comment from plain),
      kept_cons_comment (show next.kind = .comment from comment)] at follows ⊢
    cases further : kept rest with
    | nil =>
      rw [further] at follows
      exact absurd follows.symm more
    | cons right behind => exact ⟨behind, next, rest, List.suffix_rfl, comment, further⟩

theorem nextIs_bare {kind : Kind} (commented : parser.Commented)
    (plain : parser.current.kind ≠ .comment) (further : parser.next.kind ≠ .comment) :
    parser.bare.nextIs kind = parser.nextIs kind := by
  rcases next_bare commented plain with ⟨_, same, _⟩ | ⟨comment, _⟩
  · unfold nextIs
    rw [same]
  · exact absurd comment further

theorem unitFollows_bare (commented : parser.Commented) (plain : parser.current.kind ≠ .comment) :
    parser.bare.unitFollows = parser.unitFollows := by
  unfold unitFollows nextIs
  rcases next_bare commented plain with ⟨_, same, touches⟩ | ⟨comment, far⟩
  · rw [same, touches]
  · simp [far, comment]

theorem namesAtRule_bare (commented : parser.Commented) (plain : parser.current.kind ≠ .comment) :
    Grammar.namesAtRule parser.bare = Grammar.namesAtRule parser := by
  unfold Grammar.namesAtRule nextIs
  rcases next_bare commented plain with ⟨_, same, touches⟩ | ⟨comment, far⟩
  · rw [same, touches]
  · simp [far, comment]

theorem isContainerName_bare (commented : parser.Commented)
    (plain : parser.current.kind ≠ .comment) :
    Grammar.isContainerName parser.bare = Grammar.isContainerName parser := by
  unfold Grammar.isContainerName nextIs
  rw [current_bare plain]
  rcases next_bare commented plain with ⟨_, same, touches⟩ | ⟨comment, far⟩
  · rw [same, touches]
  · simp [far, comment]

theorem skip_bare (plain : parser.current.kind ≠ .comment) :
    (parser.skip 1).bare = parser.bare.skip 1 := by
  obtain ⟨settings, ahead, finish, errors⟩ := parser
  cases ahead with
  | nil => rfl
  | cons token rest =>
    unfold bare skip
    dsimp only
    rw [kept_cons (show token.kind ≠ .comment from plain)]
    rfl

theorem skip_bare_comment (is : parser.current.kind = .comment) :
    (parser.skip 1).bare = parser.bare := by
  obtain ⟨settings, ahead, finish, errors⟩ := parser
  cases ahead with
  | nil => rfl
  | cons token rest =>
    unfold bare skip
    dsimp only
    rw [kept_cons_comment (show token.kind = .comment from is)]
    rfl

theorem nth_skip (parser : Parser) (count : Nat) :
    (parser.skip 1).nth count = parser.nth (count + 1) := by
  unfold nth skip
  rw [List.getElem?_drop, Nat.add_comm]

/-- A comment after a token leaves no number that touches it. -/
theorem touchesNumber_bare (commented : parser.Commented)
    (plain : parser.current.kind ≠ .comment) :
    (parser.bare.isAdjacent 1 && (parser.bare.nth 1).kind == .number) =
      (parser.isAdjacent 1 && (parser.nth 1).kind == .number) := by
  rcases next_bare commented plain with ⟨_, same, touches⟩ | ⟨comment, far⟩
  · rw [touches, show parser.bare.nth 1 = parser.nth 1 from same]
  · rw [far, show (parser.nth 1).kind = .comment from comment, Bool.false_and]
    exact (Bool.and_false _).symm

theorem current_skip (parser : Parser) : (parser.skip 1).current = parser.next := nth_skip parser 0

theorem isAdjacent_skip (parser : Parser) : (parser.skip 1).isAdjacent 1 = parser.isAdjacent 2 := by
  unfold isAdjacent
  rw [nth_skip, nth_skip]
  rfl

theorem startsNumeric_bare (commented : parser.Commented)
    (plain : parser.current.kind ≠ .comment) :
    parser.bare.startsNumeric = parser.startsNumeric := by
  have first : parser.bare.nth 0 = parser.nth 0 := current_bare plain
  unfold startsNumeric
  rw [current_bare plain]
  by_cases sign : isSign parser.current = true
  · simp only [if_pos sign]
    rcases next_bare commented plain with ⟨further, same, touches⟩ | ⟨comment, far⟩
    · have next : parser.bare.nth 1 = parser.nth 1 := same
      have moved : (parser.skip 1).Commented :=
        commented.of_follows (Reading.advance.follows parser)
      have second := touchesNumber_bare moved (by rwa [current_skip])
      rw [skip_bare plain, isAdjacent_skip, isAdjacent_skip, nth_skip, nth_skip] at second
      simp only [next, touches, second]
    · simp [far, show (parser.nth 1).kind = .comment from comment]
  · simp only [if_neg sign, Nat.zero_add, first, touchesNumber_bare commented plain]
    rfl

theorem kind_of_isSign {token : Token} (sign : isSign token = true) :
    token.kind = .minus ∨ token.kind = .plus := by
  simpa [isSign] using sign

theorem kind_of_mark {token : Token} (mark : (isSign token || token.kind == .dot) = true) :
    token.kind = .minus ∨ token.kind = .plus ∨ token.kind = .dot := by
  rcases Bool.or_eq_true_iff.1 mark with sign | dot
  · exact (kind_of_isSign sign).imp_right .inl
  · exact .inr (.inr (beq_iff_eq.1 dot))

/-- A sign or a point, or both, that may stand before a number. -/
inductive NumberMarks : List Token → Prop
  | sign {sign : Token} (is : isSign sign = true) : NumberMarks [sign]
  | point {point : Token} (is : point.kind = .dot) : NumberMarks [point]
  | both {sign point : Token} (is : isSign sign = true) (dot : point.kind = .dot) :
      NumberMarks [sign, point]

theorem NumberMarks.mark {front : List Token} (marks : NumberMarks front) :
    ∀ token ∈ front, (isSign token || token.kind == .dot) = true := by
  cases marks with
  | sign is => simp [is]
  | point is => simp [is]
  | both is dot => simp [is, dot]

/-- The signs and points that a number is read from stand right before its digits. -/
theorem startsNumeric_split (starts : parser.startsNumeric = true) :
    ∃ front number rest, parser.ahead = front ++ number :: rest ∧ NumberMarks front ∧
      number.kind = .number := by
  obtain ⟨settings, ahead, finish, errors⟩ := parser
  unfold startsNumeric isAdjacent current nth at starts
  dsimp only at starts ⊢
  match ahead with
  | [] => simp [isSign, Token.endOfInput] at starts
  | [token] =>
    by_cases sign : isSign token = true <;> simp [sign, Token.endOfInput] at starts
  | token :: next :: rest =>
    by_cases sign : isSign token = true
    · by_cases dot : next.kind = .dot
      · cases rest with
        | nil => simp [sign, dot, Token.endOfInput] at starts
        | cons last more =>
          simp [sign, dot] at starts
          exact ⟨[token, next], last, more, rfl, .both sign dot, starts.2.2⟩
      · simp [sign, dot] at starts
        exact ⟨[token], next, rest, rfl, .sign sign, starts.2⟩
    · simp [sign] at starts
      exact ⟨[token], next, rest, rfl, .point starts.1, starts.2.2⟩

/-- A name has its parenthesis right behind it, or it has none. -/
theorem opensCall_bare (commented : parser.Commented) (name : parser.current.kind = .ident) :
    parser.bare.nextIs .openParen = parser.nextIs .openParen := by
  have plain : parser.current.kind ≠ .comment := by rw [name]; exact nofun
  by_cases comment : parser.next.kind = .comment
  · obtain ⟨settings, ahead, finish, errors⟩ := parser
    match ahead with
    | [] => rfl
    | [token] => exact absurd comment nofun
    | token :: next :: rest =>
      have is : next.kind = .comment := comment
      have whole := commented.calls token next rest List.suffix_rfl name is
      unfold bare nextIs
      dsimp only
      rw [kept_cons (show token.kind ≠ .comment from plain), kept_cons_comment is, comment]
      cases further : kept rest with
      | nil => rfl
      | cons right more => exact beq_eq_false_iff_ne.2 (whole right (by rw [further]; rfl))
  · exact nextIs_bare commented plain comment

theorem startsUrl_bare (commented : parser.Commented) (plain : parser.current.kind ≠ .comment) :
    Grammar.startsUrl parser.bare = Grammar.startsUrl parser := by
  unfold Grammar.startsUrl
  rw [current_bare plain]
  by_cases word : parser.current.isWord Word.urlWord = true
  · rw [opensCall_bare commented (Grammar.kind_of_isWord word)]
  · simp [word]

theorem blockFollows_bare (parser : Parser) : parser.bare.blockFollows = parser.blockFollows := by
  unfold blockFollows bare kept
  rw [List.find?_filter]
  congr 2
  funext token
  by_cases structural : token.isStructural = true
  · simp [structural, token.plain_of_isStructural structural]
  · simp [structural]

end Looks

end Parser

namespace Span

/-- The stretch is the same, less its comments, among the tokens without comments. -/
def Clear (span : List Token → Nat) (tokens : List Token) : Prop :=
  span (kept tokens) = (kept (tokens.take (span tokens))).length

variable {tokens : List Token}

namespace Clear

variable {span : List Token → Nat}

theorem split (tokens : List Token) (count : Nat) :
    kept tokens = kept (tokens.take count) ++ kept (tokens.drop count) := by
  rw [← kept_append, List.take_append_drop]

theorem take_eq (clear : Clear span tokens) :
    (kept tokens).take (span (kept tokens)) = kept (tokens.take (span tokens)) := by
  rw [clear, split tokens (span tokens), List.take_left]

theorem drop_eq (clear : Clear span tokens) :
    (kept tokens).drop (span (kept tokens)) = kept (tokens.drop (span tokens)) := by
  rw [clear, split tokens (span tokens), List.drop_left]

end Clear

/-- A stretch may end at comments if what comes after them ends it too. -/
theorem before_clear {stop : Token → Bool}
    (ends : ∀ token ∈ (kept (tokens.drop (before stop tokens))).head?, stop token = true) :
    Clear (before stop) tokens := by
  have going : ∀ token ∈ kept (tokens.take (before stop tokens)), (!stop token) = true := by
    intro token member
    rw [Grammar.take_before] at member
    exact List.mem_takeWhile_imp (p := fun token => !stop token) (List.mem_filter.1 member).1
  have stopped : (kept (tokens.drop (before stop tokens))).takeWhile (fun token => !stop token) =
      [] := by
    cases rest : kept (tokens.drop (before stop tokens)) with
    | nil => rfl
    | cons token more =>
      have ended := ends token (by rw [rest]; rfl)
      exact List.takeWhile_cons_of_neg (by simp [ended])
  unfold Clear
  rw [Clear.split tokens (before stop tokens), before, List.takeWhile_append_of_pos going, stopped,
    List.append_nil]

/-- A stretch that comments do not end. -/
theorem before_clear_of_passes {stop : Token → Bool}
    (passes : ∀ token, token.kind = .comment → stop token = false) :
    Clear (before stop) tokens := by
  apply before_clear
  rw [Grammar.drop_before]
  cases rest : tokens.dropWhile fun token => !stop token with
  | nil => exact fun token member => absurd member (Option.not_mem_none token)
  | cons first more =>
    have ended : stop first = true := by
      have head := List.head?_dropWhile_not (fun token => !stop token) tokens
      rw [rest] at head
      simpa using head
    have plain : first.kind ≠ .comment := fun is =>
      Bool.false_ne_true ((passes first is).symm.trans ended)
    rw [kept_cons plain]
    intro token member
    obtain rfl := Option.some.inj member
    exact ended

theorem comments_clear : Clear comments tokens := by
  apply before_clear
  intro token member
  exact bne_iff_ne.2 (kept_plain token (List.mem_of_head? member))

/-- A comment is passed like any other token of the stretch. -/
theorem clear_cons_comment {span : List Token → Nat} {token : Token}
    (is : token.kind = .comment) (passes : span (token :: tokens) = span tokens + 1)
    (clear : Clear span tokens) : Clear span (token :: tokens) := by
  unfold Clear
  rw [passes, List.take_succ_cons, kept_cons_comment is, kept_cons_comment is]
  exact clear

/-- A token that is no comment counts on both sides. -/
theorem kept_take_cons {token : Token} (plain : token.kind ≠ .comment) {count further : Nat}
    (same : further = (kept (tokens.take count)).length) :
    further + 1 = (kept ((token :: tokens).take (count + 1))).length := by
  rw [List.take_succ_cons, kept_cons plain, List.length_cons, same]

theorem inside_clear {stop : Token → Bool}
    (passes : ∀ token, token.kind = .comment → stop token = false) (opened : Nat) :
    Clear (inside stop opened) tokens := by
  induction tokens generalizing opened with
  | nil => rfl
  | cons token rest ih =>
    by_cases comment : token.kind = .comment
    · refine clear_cons_comment comment ?_ (ih opened)
      rw [inside]
      simp [comment, passes token comment, Token.isStructural]
    · unfold Clear
      rw [kept_cons comment, inside, inside]
      split
      next => rfl
      next =>
        split
        next => rfl
        next =>
          split
          next => exact kept_take_cons comment (ih (opened + 1))
          next =>
            split
            next => rfl
            next => exact kept_take_cons comment (ih (opened - 1))
          next => exact kept_take_cons comment (ih opened)

theorem block_clear (opened : Nat) : Clear (block opened) tokens := by
  induction tokens generalizing opened with
  | nil => rfl
  | cons token rest ih =>
    by_cases comment : token.kind = .comment
    · exact clear_cons_comment comment (by simp [block, comment]) (ih opened)
    · unfold Clear
      rw [kept_cons comment, block, block]
      split
      next => rfl
      next => exact kept_take_cons comment (ih (opened + 1))
      next =>
        split
        next => exact kept_take_cons comment rfl
        next => exact kept_take_cons comment (ih (opened - 1))
      next => exact kept_take_cons comment (ih opened)

theorem declaration_clear : Clear declaration tokens := by
  induction tokens with
  | nil => rfl
  | cons token rest ih =>
    by_cases comment : token.kind = .comment
    · exact clear_cons_comment comment (by simp [declaration, comment]) ih
    · unfold Clear
      rw [kept_cons comment, declaration, declaration]
      split
      next => rfl
      next => rfl
      next => exact kept_take_cons comment rfl
      next => exact kept_take_cons comment ih

theorem group_clear (opened : Nat) : Clear (group opened) tokens := by
  induction tokens generalizing opened with
  | nil => rfl
  | cons token rest ih =>
    by_cases comment : token.kind = .comment
    · refine clear_cons_comment comment ?_ (ih opened)
      simp [group, comment, Token.isStructural]
    · unfold Clear
      rw [kept_cons comment, group, group]
      split
      next => rfl
      next =>
        split
        next => exact kept_take_cons comment (ih (opened + 1))
        next =>
          split
          next => exact kept_take_cons comment rfl
          next => exact kept_take_cons comment (ih (opened - 1))
        next => exact kept_take_cons comment (ih opened)

theorem atRule_clear (opened : Nat) : Clear (atRule opened) tokens := by
  induction tokens generalizing opened with
  | nil => rfl
  | cons token rest ih =>
    by_cases comment : token.kind = .comment
    · exact clear_cons_comment comment (by simp [atRule, comment]) (ih opened)
    · unfold Clear
      rw [kept_cons comment, atRule, atRule]
      split
      next => rfl
      next =>
        split
        next => exact kept_take_cons comment rfl
        next => exact kept_take_cons comment (ih opened)
      next => exact kept_take_cons comment (ih (opened + 1))
      next =>
        split
        next => rfl
        next =>
          split
          next => exact kept_take_cons comment rfl
          next => exact kept_take_cons comment (ih (opened - 1))
      next => exact kept_take_cons comment (ih opened)

/-- What is glued to a token touches it, so no comment stands before it. -/
theorem glued_clear {first : Token} (laid : Laid (first :: tokens)) :
    Clear (glued first.stop) tokens := by
  induction tokens generalizing first with
  | nil => rfl
  | cons token rest ih =>
    by_cases comment : token.kind = .comment
    · have none : glued first.stop (token :: rest) = 0 := by
        rw [glued, if_neg]
        simp [comment]
      unfold Clear
      rw [none, kept_cons_comment comment]
      cases further : kept rest with
      | nil => rfl
      | cons right more =>
        have member : right ∈ rest :=
          (List.mem_filter.1 (further ▸ List.mem_cons_self : right ∈ kept rest)).1
        exact if_neg fun glues => Nat.ne_of_gt (laid.stop_lt right member) glues.1
    · unfold Clear
      rw [kept_cons comment, glued, glued]
      split
      next =>
        rw [List.take_succ_cons, kept_cons comment, List.length_cons,
          ih (laid.suffix (List.suffix_cons _ _))]
      next => rfl

theorem glued_kinds (stop : Nat) :
    ∀ token ∈ tokens.take (glued stop tokens), token.kind = .ident ∨ token.kind = .number := by
  induction tokens generalizing stop with
  | nil => exact fun _ member => absurd member List.not_mem_nil
  | cons token rest ih =>
    rw [glued]
    split
    next glues =>
      rw [List.take_succ_cons]
      exact List.forall_mem_cons.2 ⟨glues.2, ih _⟩
    next => exact fun _ member => absurd member List.not_mem_nil

theorem glued_taken (stop : Nat) :
    ∀ token ∈ tokens.take (glued stop tokens), token.kind ≠ .comment := by
  intro token member is
  rcases glued_kinds stop token member with name | number
  · exact nomatch is.symm.trans name
  · exact nomatch is.symm.trans number

/-- No comment stands between two words of a name. -/
theorem words_clear {name : Token} (whole : WordsWhole (name :: tokens))
    (is : name.kind = .ident) : Clear (before fun token => token.kind != .ident) tokens := by
  apply before_clear
  induction tokens generalizing name with
  | nil => exact fun token member => absurd member (Option.not_mem_none token)
  | cons token rest ih =>
    by_cases word : token.kind = .ident
    · have more : before (fun token => token.kind != .ident) (token :: rest) =
          before (fun token => token.kind != .ident) rest + 1 := by
        simp [before, word]
      rw [more, List.drop_succ_cons]
      refine ih (WordsWhole.drop [name] whole ?_) word
      exact List.forall_mem_singleton.2 (by simp [Token.isStructural, is])
    · have none : before (fun token => token.kind != .ident) (token :: rest) = 0 := by
        simp [before, word]
      rw [none, List.drop_zero]
      intro follower member
      by_cases comment : token.kind = .comment
      · rw [kept_cons_comment comment] at member
        have going : ∀ token ∈ ([] : List Token), token.isStructural = false :=
          fun _ member => absurd member List.not_mem_nil
        exact bne_iff_ne.2 (whole [] name token rest rfl going is comment follower member)
      · rw [kept_cons comment] at member
        obtain rfl := Option.some.inj member
        exact bne_iff_ne.2 word

/-- The tokens start with a point and a name right behind it. -/
theorem innerLayers_pos {tokens : List Token} (some : Grammar.innerLayers tokens ≠ 0) :
    ∃ point inner rest, tokens = point :: inner :: rest ∧ point.kind = .dot ∧
      inner.kind = .ident ∧ point.stop = inner.start.offset := by
  match tokens with
  | [] => exact absurd rfl some
  | [token] => exact absurd rfl some
  | point :: inner :: rest =>
    by_cases layer : point.kind = .dot ∧ inner.kind = .ident ∧ point.stop = inner.start.offset
    · exact ⟨point, inner, rest, rfl, layer⟩
    · exact absurd (if_neg layer) some

/-- The inner layers of a name are the same without comments if none parts the last of them from
a further one. -/
theorem innerLayers_clear {name : Token} {tokens : List Token} (laid : Laid tokens)
    (is : name.kind = .ident)
    (ends : ∀ last comment rest,
      (name :: tokens).drop (Grammar.innerLayers tokens) = last :: comment :: rest →
        last.kind = .ident → comment.kind = .comment → Grammar.innerLayers (kept rest) = 0) :
    Clear Grammar.innerLayers tokens ∧
      ∀ token ∈ tokens.take (Grammar.innerLayers tokens), token.kind ≠ .comment := by
  match tokens with
  | [] => exact ⟨rfl, fun _ member => absurd member List.not_mem_nil⟩
  | [token] =>
    refine ⟨?_, fun _ member => absurd member List.not_mem_nil⟩
    by_cases comment : token.kind = .comment
    · unfold Clear
      rw [kept_cons_comment comment]
      rfl
    · unfold Clear
      rw [kept_cons comment]
      rfl
  | point :: inner :: rest =>
    by_cases layer : point.kind = .dot ∧ inner.kind = .ident ∧ point.stop = inner.start.offset
    · have more : Grammar.innerLayers (point :: inner :: rest) = Grammar.innerLayers rest + 2 :=
        if_pos layer
      have first : point.kind ≠ .comment := by rw [layer.1]; exact nofun
      have second : inner.kind ≠ .comment := by rw [layer.2.1]; exact nofun
      have further : Laid rest := laid.suffix ⟨[point, inner], rfl⟩
      rw [more] at ends
      obtain ⟨clear, plain⟩ := innerLayers_clear further layer.2.1 ends
      unfold Clear
      rw [more, List.take_succ_cons, List.take_succ_cons, kept_cons first, kept_cons second,
        kept_cons first, kept_cons second]
      refine ⟨?_, List.forall_mem_cons.2 ⟨first, List.forall_mem_cons.2 ⟨second, plain⟩⟩⟩
      exact (if_pos layer).trans (congrArg (· + 2) clear)
    · have none : Grammar.innerLayers (point :: inner :: rest) = 0 := if_neg layer
      refine ⟨?_, by rw [none]; exact fun _ member => absurd member List.not_mem_nil⟩
      rw [none] at ends
      unfold Clear
      rw [none]
      by_cases comment : point.kind = .comment
      · rw [kept_cons_comment comment]
        exact ends name point (inner :: rest) rfl is comment
      · rw [kept_cons comment]
        by_contra some
        obtain ⟨_, follower, last, split, dot, word, touches⟩ := innerLayers_pos some
        obtain ⟨rfl, behind⟩ := List.cons_eq_cons.1 split
        by_cases parted : inner.kind = .comment
        · rw [kept_cons_comment parted] at behind
          have member : follower ∈ rest :=
            (List.mem_filter.1 (behind ▸ List.mem_cons_self : follower ∈ kept rest)).1
          exact Nat.ne_of_lt (laid.stop_lt follower member) touches
        · rw [kept_cons parted] at behind
          obtain ⟨rfl, _⟩ := List.cons_eq_cons.1 behind
          exact layer ⟨dot, word, touches⟩

end Span

end CssSyntax

import CssSyntax.Proofs.Comments.Bare
import CssSyntax.Proofs.Token.Echo
import CssSyntax.Proofs.Token.Ending

/-! The tokens of text that was kept for a run of tokens. Where no token takes in the space that
stands for a gap behind it, the text has the tokens that it was kept for. -/

namespace CssSyntax

/-- True of bytes that do not go on with a name. -/
def Bytes.Broken (bytes : Bytes) : Prop := ∀ byte ∈ bytes.head?, Byte.isIdentPart byte = false

/-- True of bytes whose first that is no white space opens a string. -/
def Bytes.quoted (bytes : Bytes) : Bool :=
  (bytes.dropWhile Byte.isWhiteSpace).head?.any Byte.isQuote

theorem Byte.isIdentPart_of_isWhiteSpace {byte : UInt8} (blank : isWhiteSpace byte = true) :
    isIdentPart byte = false := by
  simp only [isWhiteSpace, Bool.or_eq_true, beq_iff_eq] at blank
  rcases blank with ((rfl | rfl) | rfl) | rfl <;> rfl

namespace Bytes

theorem quoted_append {front : Bytes} (opens : front.head?.any Byte.isQuote = true)
    (back : Bytes) : quoted (front ++ back) = true := by
  cases front with
  | nil => exact absurd opens Bool.false_ne_true
  | cons quote rest =>
    change Byte.isQuote quote = true at opens
    have visible : Byte.isWhiteSpace quote = false := by
      simp only [Byte.isQuote, Bool.or_eq_true, beq_iff_eq] at opens
      rcases opens with rfl | rfl <;> rfl
    rw [quoted, List.cons_append, List.dropWhile_cons_of_neg (by simp [visible])]
    exact opens

theorem broken_append_of_blank {gap : Bytes} (rest : Bytes) (some : gap ≠ [])
    (blank : ∀ byte ∈ gap, Byte.isWhiteSpace byte = true) : Broken (gap ++ rest) := by
  obtain ⟨first, more, rfl⟩ := List.exists_cons_of_ne_nil some
  intro byte is
  obtain rfl := Option.some.inj is
  exact Byte.isIdentPart_of_isWhiteSpace (blank first List.mem_cons_self)

end Bytes

namespace Cut

variable {source : Bytes} {cut : Cut}

theorem source_eq (found : Cut.ofBytes? source = some cut) :
    source = cut.gap ++ (cut.literal ++ cut.rest) := by
  rw [← List.append_assoc, ofBytes?_append found]

/-- A gap breaks off what comes before it. -/
theorem broken (found : Cut.ofBytes? source = some cut)
    (first : cut.gap = [] → cut.literal.Broken) : source.Broken := by
  rw [source_eq found]
  by_cases none : cut.gap = []
  · rw [none, List.nil_append]
    unfold Bytes.Broken
    rw [List.head?_append_of_ne_nil _ (literal_ne_nil found)]
    exact first none
  · exact Bytes.broken_append_of_blank _ none (gap_blank found)

theorem quoted_eq (found : Cut.ofBytes? source = some cut) :
    source.quoted = cut.literal.head?.any Byte.isQuote := by
  obtain ⟨first, rest, split, -, literal, -⟩ := of_found found
  rw [Bytes.quoted, split, literal]
  rfl

theorem head?_of_comment (found : Cut.ofBytes? source = some cut) (comment : cut.kind = .comment) :
    cut.literal.head? = some Byte.slash := by
  obtain ⟨first, rest, -, kind, literal, -⟩ := of_found found
  obtain rfl := Lexeme.slash_of_comment (kind.symm.trans comment)
  rw [literal]
  rfl

theorem openParen (found : Cut.ofBytes? source = some cut)
    (opens : cut.literal.head? = some Byte.openParen) :
    cut.kind = .openParen ∧ cut.literal = [Byte.openParen] := by
  obtain ⟨first, rest, -, kind, literal, -⟩ := of_found found
  rw [literal] at opens
  obtain rfl : first = Byte.openParen := Option.some.inj opens
  exact ⟨kind, literal⟩

theorem string_of_quote (found : Cut.ofBytes? source = some cut)
    (opens : cut.literal.head?.any Byte.isQuote = true) : cut.kind = .string := by
  obtain ⟨first, rest, -, kind, literal, -⟩ := of_found found
  rw [literal] at opens
  change Byte.isQuote first = true at opens
  simp only [Byte.isQuote, Bool.or_eq_true, beq_iff_eq] at opens
  rw [kind]
  rcases opens with rfl | rfl <;> rfl

end Cut

/-- True of bytes that end in a `#` with the digits of a color. -/
def Bytes.EndsInColor (text : Bytes) : Prop :=
  ∃ digits, Byte.hash :: digits <:+ text ∧ ColorDigits digits digits

/-- The bytes behind a token in a source and in a text: they agree up to a place where the text has
something else for a gap of the source, or comes to its end. Only if it does not end in a color may
the source go on there. -/
def Echo (text there here : Bytes) : Prop :=
  ∃ common left right, there = common ++ left ∧ here = common ++ right ∧
    (∀ byte ∈ right.head?, Byte.parts byte = true) ∧
    (left.Broken ∨ right = [] ∧ ¬text.EndsInColor)

namespace Echo

variable {text there here : Bytes}

theorem append (echo : Echo text there here) (front : Bytes) :
    Echo text (front ++ there) (front ++ here) := by
  obtain ⟨common, left, right, rfl, rfl, parted, ends⟩ := echo
  exact ⟨front ++ common, left, right, (List.append_assoc ..).symm, (List.append_assoc ..).symm,
    parted, ends⟩

/-- In place of a gap. -/
theorem gap (parted : ∀ byte ∈ here.head?, Byte.parts byte = true)
    (broken : there.Broken) : Echo text there here :=
  ⟨[], there, here, rfl, rfl, parted, .inl broken⟩

theorem fraction (echo : Echo text there here) (digit : UInt8) (front : [Byte.dot, digit] <+: here)
    (goes : Byte.isDigit digit = true) : [Byte.dot, digit] <+: there := by
  obtain ⟨common, left, right, rfl, rfl, parted, -⟩ := echo
  obtain ⟨rest, split⟩ := front
  match common with
  | [] =>
    obtain rfl : Byte.dot :: digit :: rest = right := split
    exact absurd (parted Byte.dot rfl) (by decide)
  | [point] =>
    obtain ⟨rfl, rfl⟩ := List.cons.inj split
    have free := Byte.isDigit_of_parts (parted digit rfl)
    exact absurd (free.symm.trans goes) Bool.false_ne_true
  | point :: other :: common =>
    obtain ⟨rfl, same⟩ := List.cons.inj split
    obtain ⟨rfl, -⟩ := List.cons.inj same
    exact ⟨common ++ left, rfl⟩

/-- A color behind a `#` of the text is one in the source, unless it is all that is left. -/
theorem color (echo : Echo text there here) {digits : Bytes} (color : ColorDigits here digits) :
    ColorDigits there digits ∨ here = digits ∧ ¬text.EndsInColor := by
  obtain ⟨common, left, right, rfl, rfl, parted, ends⟩ := echo
  obtain ⟨written, hex, count, free⟩ := color
  have within : digits <+: common := by
    rcases List.prefix_or_prefix_of_prefix written (List.prefix_append common right) with
      within | ⟨more, rfl⟩
    · exact within
    cases more with
    | nil => simp
    | cons byte more =>
      obtain ⟨tail, rfl⟩ := (List.prefix_append_right_inj common).1 written
      have other := Byte.isHexDigit_of_not_isIdentPart (Byte.isIdentPart_of_parts (parted byte rfl))
      have digit := hex byte (List.mem_append_right common List.mem_cons_self)
      exact absurd (other.symm.trans digit) Bool.false_ne_true
  obtain ⟨tail, rfl⟩ := within
  cases tail with
  | cons byte tail =>
    refine .inl ⟨by simp, hex, count, fun other first => free other ?_⟩
    simpa using first
  | nil =>
    rw [List.append_nil]
    rcases ends with broken | ⟨rfl, plain⟩
    · exact .inl ⟨List.prefix_append .., hex, count, by rwa [List.drop_left]⟩
    · exact .inr ⟨List.append_nil digits, plain⟩

end Echo

namespace Verbatim

/-- The text from the end of a token on, given the tokens behind it. -/
def behind (stop : Nat) (tokens : List Token) : Bytes :=
  match kept tokens with
  | [] => []
  | token :: rest =>
    (if stop = token.start.offset then [] else [Byte.space]) ++ join (token :: rest)

section Behind

variable {token : Token} {tokens : List Token}

theorem behind_comment (stop : Nat) (is : token.kind = .comment) :
    behind stop (token :: tokens) = behind stop tokens := by
  unfold behind
  rw [kept_cons_comment is]

theorem join_kept_cons (plain : token.kind ≠ .comment) :
    join (kept (token :: tokens)) = token.literal ++ behind token.stop tokens := by
  rw [kept_cons plain]
  unfold behind
  split
  next none => rw [none, join, List.append_nil]
  next right rest is => rw [is, join, gap, List.append_assoc]

theorem behind_cons (stop : Nat) (plain : token.kind ≠ .comment) :
    behind stop (token :: tokens) =
      (if stop = token.start.offset then [] else [Byte.space]) ++
        (token.literal ++ behind token.stop tokens) := by
  rw [← join_kept_cons plain, kept_cons plain, behind, kept_cons plain]

theorem behind_eq (stop : Nat) (tokens : List Token) :
    behind stop tokens = join (kept tokens) ∨
      behind stop tokens = Byte.space :: join (kept tokens) := by
  unfold behind
  split
  next none => exact .inl (by rw [none]; rfl)
  next token rest is =>
    rw [is]
    split
    · exact .inl rfl
    · exact .inr rfl

end Behind

/-- How a run of tokens ends whose text is followed by `tail`, given the tokens behind it. -/
structure Ends (run back : List Token) (tail text : Bytes) : Prop where
  added : tail = [] ∨ tail = [0x5d] ∧ back ≠ []
  free : ∀ token ∈ (kept run).getLast?, ∀ byte ∈ tail.head?, token.takes byte = false
  broken : (∀ last ∈ (kept run).getLast?, ∀ next ∈ back.head?,
    last.stop = next.start.offset → next.literal.Broken) ∨ tail = [] ∧ ¬text.EndsInColor
  paren : ∀ token ∈ run.getLast?, token.kind = .openParen →
    ∀ next ∈ back.head?, next.kind ≠ .string

/-- No token with a gap behind it takes in the space that stands for the gap. -/
def Apart (tokens : List Token) : Prop :=
  (kept tokens).IsChain fun left right =>
    left.stop = right.start.offset ∨ left.takes Byte.space = false

instance (tokens : List Token) : Decidable (Apart tokens) :=
  inferInstanceAs (Decidable (List.IsChain _ _))

section Runs

variable {position : Position} {source : Bytes} {run back : List Token} {tail text : Bytes}

/-- Where the last of some tokens ends that stand behind `place`. -/
def endOf (place : Nat) (tokens : List Token) : Nat := (tokens.getLast?.map Token.stop).getD place

theorem endOf_cons (place : Nat) (token : Token) (tokens : List Token) :
    endOf place (token :: tokens) = endOf token.stop tokens := by
  unfold endOf
  rw [List.getLast?_cons]
  cases tokens.getLast? <;> rfl

theorem endOf_of_last (place : Nat) {last : Token} {tokens : List Token}
    (is : tokens.getLast? = some last) : endOf place tokens = last.stop := by
  rw [endOf, is]
  rfl

theorem broken_source (split : (tokensFrom position source).dropLast = back)
    (broken : ∀ next ∈ back.head?, position.offset = next.start.offset → next.literal.Broken) :
    source.Broken := by
  cases found : Cut.ofBytes? source with
  | none =>
    have blank := Cut.source_blank found
    by_cases none : source = []
    · rw [none]
      exact nofun
    · rw [← List.append_nil source]
      exact Bytes.broken_append_of_blank _ none blank
  | some cut =>
    rw [tokensFrom_cut found, List.dropLast_cons_of_ne_nil (tokensFrom_ne_nil _ _)] at split
    subst split
    exact Cut.broken found fun none => broken _ rfl (by rw [none]; rfl)

/-- What the text has for the tokens of a run in a source from `position` on. -/
inductive Behind (position : Position) (source : Bytes) (back : List Token) :
    List Token → Bytes → Prop where
  /-- Nothing, for no token and for comments. -/
  | none {run : List Token} (kept : kept run = []) (broken : run = [] ∨ source.Broken) :
      Behind position source back run []
  /-- A space and the first token, for a gap in the source. -/
  | gap {run : List Token} {right : Token} {more : Bytes} (next : right ∈ (kept run).head?)
      (parted : position.offset ≠ right.start.offset) (broken : source.Broken) :
      Behind position source back run (Byte.space :: more)
  /-- The token that stands there. -/
  | touch {run : List Token} {cut : Cut} (found : Cut.ofBytes? source = some cut)
      (whole : source = cut.literal ++ cut.rest) (plain : cut.kind ≠ .comment)
      (left : (tokensFrom (position.after cut.literal) cut.rest).dropLast = run ++ back) :
      Behind position source back (⟨cut.kind, cut.literal, position⟩ :: run)
        (cut.literal ++ behind (position.after cut.literal).offset run)

/-- Behind a comment there is no token that touches what is before the comment. -/
theorem behind_of_later {place : Position}
    (split : (tokensFrom place source).dropLast = run ++ back)
    (before : position.offset < place.offset) :
    kept run = [] ∧ behind position.offset run = [] ∨
      ∃ right ∈ (kept run).head?, position.offset ≠ right.start.offset ∧
        ∃ more, behind position.offset run = Byte.space :: more := by
  unfold behind
  split
  next none => exact .inl ⟨none, rfl⟩
  next token rest is =>
    have among : token ∈ tokensFrom place source := by
      have member : token ∈ kept run := is ▸ List.mem_cons_self
      exact List.mem_of_mem_dropLast
        (split ▸ List.mem_append_left back (List.mem_of_mem_filter member))
    have later := (tokensFrom_tiles place source).offset_le token among
    have parted : position.offset ≠ token.start.offset := by omega
    rw [is, if_neg parted]
    exact .inr ⟨token, rfl, parted, _, rfl⟩

theorem behind_cases (split : (tokensFrom position source).dropLast = run ++ back) :
    Behind position source back run (behind position.offset run) := by
  cases run with
  | nil => exact .none rfl (.inl rfl)
  | cons token run =>
    obtain ⟨cut, found, rfl, left⟩ := tokensFrom_split split
    have start := Position.offset_after position cut.gap
    by_cases comment : cut.kind = .comment
    · have broken : source.Broken := by
        refine Cut.broken found fun _ byte first => ?_
        obtain rfl := Option.some.inj ((Cut.head?_of_comment found comment).symm.trans first)
        rfl
      have before : position.offset < ((position.after cut.gap).after cut.literal).offset := by
        have some := List.length_pos_iff.2 (Cut.literal_ne_nil found)
        rw [Position.offset_after, start]
        omega
      rw [behind_comment _ comment]
      rcases behind_of_later left before with ⟨none, empty⟩ | ⟨right, next, parted, more, is⟩
      · rw [empty]
        exact .none ((kept_cons_comment comment run).trans none) (.inr broken)
      · rw [is]
        exact .gap (by rwa [kept_cons_comment comment]) parted broken
    · have whole := Cut.source_eq found
      rw [behind_cons _ comment]
      by_cases none : cut.gap = []
      · rw [none] at left whole ⊢
        have stop : Token.stop ⟨cut.kind, cut.literal, position⟩ =
            (position.after cut.literal).offset := (Position.offset_after ..).symm
        change Behind position source back (⟨cut.kind, cut.literal, position⟩ :: run)
          ((if position.offset = position.offset then [] else [Byte.space]) ++
            (cut.literal ++ behind (Token.stop ⟨cut.kind, cut.literal, position⟩) run))
        rw [if_pos rfl, stop]
        exact .touch found whole comment left
      · have some := List.length_pos_iff.2 none
        have parted : position.offset ≠ (position.after cut.gap).offset := by omega
        have broken : source.Broken := by
          rw [whole]
          exact Bytes.broken_append_of_blank _ none (Cut.gap_blank found)
        rw [if_neg parted]
        exact .gap (by rw [kept_cons comment]; rfl) parted broken

theorem echo_behind (split : (tokensFrom position source).dropLast = run ++ back)
    (parted : ∀ byte ∈ tail.head?, Byte.parts byte = true)
    (broken : (∀ next ∈ back.head?, endOf position.offset (kept run) = next.start.offset →
      next.literal.Broken) ∨ tail = [] ∧ ¬text.EndsInColor) :
    Echo text source (behind position.offset run ++ tail) := by
  induction run generalizing position source with
  | nil =>
    refine ⟨[], source, tail, rfl, rfl, parted, broken.imp_left fun broken => ?_⟩
    exact broken_source split broken
  | cons token run ih =>
    generalize is : behind position.offset (token :: run) = bytes
    have shape := is ▸ behind_cases split
    cases shape with
    | none _ parts => exact .gap parted (parts.resolve_left (List.cons_ne_nil _ _))
    | gap next _ parts =>
      refine .gap (fun byte first => ?_) parts
      obtain rfl := Option.some.inj first
      rfl
    | @touch _ cut found whole plain left =>
      have stop : Token.stop ⟨cut.kind, cut.literal, position⟩ =
          (position.after cut.literal).offset := (Position.offset_after ..).symm
      rw [kept_cons plain, endOf_cons, stop] at broken
      rw [whole, List.append_assoc]
      exact (ih left broken).append cut.literal

theorem quoted_source (split : (tokensFrom position source).dropLast = back)
    (plain : ∀ next ∈ back.head?, next.kind ≠ .string) : source.quoted = false := by
  refine Bool.eq_false_iff.2 fun quoted => ?_
  cases found : Cut.ofBytes? source with
  | none =>
    have blank := List.dropWhile_eq_nil_iff.2 (Cut.source_blank found)
    rw [Bytes.quoted, blank] at quoted
    exact Bool.false_ne_true quoted
  | some cut =>
    rw [Cut.quoted_eq found] at quoted
    rw [tokensFrom_cut found, List.dropLast_cons_of_ne_nil (tokensFrom_ne_nil _ _)] at split
    subst split
    exact plain _ rfl (Cut.string_of_quote found quoted)

/-- A string that the source has next is next in the text. -/
theorem quoted_behind (split : (tokensFrom position source).dropLast = run ++ back)
    (last : run = [] → source.quoted = false) (quoted : source.quoted = true) :
    (behind position.offset run ++ tail).quoted = true := by
  cases run with
  | nil => exact absurd ((last rfl).symm.trans quoted) Bool.false_ne_true
  | cons token run =>
    obtain ⟨cut, found, rfl, -⟩ := tokensFrom_split split
    rw [Cut.quoted_eq found] at quoted
    have plain : cut.kind ≠ .comment := by
      intro comment
      rw [Cut.head?_of_comment found comment] at quoted
      exact absurd quoted (by decide)
    have first (more : Bytes) : Bytes.quoted (cut.literal ++ more) = true :=
      Bytes.quoted_append quoted more
    rw [behind_cons _ plain, List.append_assoc, List.append_assoc]
    split
    · exact first _
    · exact first _

/-- No url is opened in the text that is not in the source. -/
theorem opensUrl_behind (split : (tokensFrom position source).dropLast = run ++ back)
    (ends : Ends run back tail text)
    (opens : Lexeme.opensUrl (behind position.offset run ++ tail) = true) :
    Lexeme.opensUrl source = true := by
  have added : Lexeme.opensUrl tail = false := by
    rcases ends.added with rfl | ⟨rfl, -⟩ <;> rfl
  generalize is : behind position.offset run = bytes at opens
  have shape := is ▸ behind_cases split
  cases shape with
  | none => exact absurd (added.symm.trans opens) Bool.false_ne_true
  | gap => exact absurd opens Bool.false_ne_true
  | @touch run cut found whole plain left =>
    obtain ⟨paren, unquoted⟩ := Bool.and_eq_true_iff.1 opens
    rw [List.append_assoc, List.head?_append_of_ne_nil _ (Cut.literal_ne_nil found)] at paren
    obtain ⟨kind, literal⟩ := Cut.openParen found (eq_of_beq paren)
    rw [whole, literal]
    change (!cut.rest.quoted) = true
    rw [literal] at unquoted
    change (!Bytes.quoted (behind _ run ++ tail)) = true at unquoted
    rw [Bool.not_eq_true'] at unquoted ⊢
    refine Bool.eq_false_iff.2 fun quoted => ?_
    have last (none : run = []) : cut.rest.quoted = false := by
      subst none
      exact quoted_source left (ends.paren _ rfl kind)
    rw [literal] at left
    exact Bool.false_ne_true (unquoted.symm.trans (quoted_behind left last quoted))

/-- The first byte that the text has next stands there in the source too, or for a gap. -/
theorem head?_behind (split : (tokensFrom position source).dropLast = run ++ back) :
    ∀ byte ∈ (behind position.offset run ++ tail).head?, byte ∈ source.head? ∨
      (byte = Byte.space ∧ ∃ right ∈ (kept run).head?, position.offset ≠ right.start.offset) ∨
      kept run = [] ∧ byte ∈ tail.head? := by
  intro byte first
  generalize is : behind position.offset run = bytes at first
  have shape := is ▸ behind_cases split
  cases shape with
  | none kept => exact .inr (.inr ⟨kept, first⟩)
  | gap next parted =>
    obtain rfl := Option.some.inj first
    exact .inr (.inl ⟨rfl, _, next, parted⟩)
  | @touch run cut found whole plain left =>
    have some := Cut.literal_ne_nil found
    rw [List.append_assoc, List.head?_append_of_ne_nil _ some] at first
    rw [whole, List.head?_append_of_ne_nil _ some]
    exact .inl first

theorem getLast?_kept_cons {token last : Token} (member : last ∈ (kept run).getLast?) :
    last ∈ (kept (token :: run)).getLast? := by
  by_cases comment : token.kind = .comment
  · rwa [kept_cons_comment comment]
  · rw [kept_cons comment, List.getLast?_cons, member]
    rfl

theorem Ends.next {token : Token} (ends : Ends (token :: run) back tail text) :
    Ends run back tail text where
  added := ends.added
  free last member := ends.free last (getLast?_kept_cons member)
  broken := ends.broken.imp_left fun broken last member => broken last (getLast?_kept_cons member)
  paren last member := ends.paren last (by rw [List.getLast?_cons, member]; rfl)

theorem Ends.parted (ends : Ends run back tail text) :
    ∀ byte ∈ tail.head?, Byte.parts byte = true := by
  rcases ends.added with rfl | ⟨rfl, -⟩
  · exact nofun
  · exact fun byte is => Option.some.inj is ▸ rfl

theorem Ends.echo {cut : Cut} (plain : cut.kind ≠ .comment)
    (left : (tokensFrom ((position.after cut.gap).after cut.literal) cut.rest).dropLast =
      run ++ back)
    (ends : Ends (⟨cut.kind, cut.literal, position.after cut.gap⟩ :: run) back tail text) :
    Echo text cut.rest
      (behind ((position.after cut.gap).after cut.literal).offset run ++ tail) := by
  refine echo_behind left ends.parted (ends.broken.imp_left fun broken next first touches => ?_)
  rw [kept_cons plain] at broken
  have last := List.getLast?_eq_some_getLast (List.cons_ne_nil
    ⟨cut.kind, cut.literal, position.after cut.gap⟩ (kept run))
  have ended := endOf_of_last position.offset last
  rw [endOf_cons] at ended
  rw [Position.offset_after] at touches
  exact broken _ last next first (ended.symm.trans touches)

/-- What the text has behind a token may stand there for what the source has. -/
theorem replaces_behind {cut : Cut}
    (found : Cut.ofBytes? source = some cut) (plain : cut.kind ≠ .comment)
    (left : (tokensFrom ((position.after cut.gap).after cut.literal) cut.rest).dropLast =
      run ++ back)
    (apart : Apart (⟨cut.kind, cut.literal, position.after cut.gap⟩ :: run))
    (ends : Ends (⟨cut.kind, cut.literal, position.after cut.gap⟩ :: run) back tail text)
    (part : cut.literal ++
      (behind ((position.after cut.gap).after cut.literal).offset run ++ tail) <:+ text) :
    Replaces cut.kind cut.literal cut.rest
      (behind ((position.after cut.gap).after cut.literal).offset run ++ tail) where
  head byte first := by
    rcases head?_behind left byte first with same | ⟨rfl, right, next, parted⟩ | ⟨none, is⟩
    · exact .inl same
    · rw [Apart, kept_cons plain, List.isChain_cons] at apart
      rw [Position.offset_after] at parted
      exact .inr ⟨rfl, (apart.1 right next).resolve_left parted⟩
    · have last : (kept (⟨cut.kind, cut.literal, position.after cut.gap⟩ :: run)).getLast? =
          some ⟨cut.kind, cut.literal, position.after cut.gap⟩ := by
        rw [kept_cons plain, none]
        rfl
      exact .inr ⟨ends.parted byte is, ends.free _ last byte is⟩
  fraction := (ends.echo plain left).fraction
  color hash digits color := by
    refine ((ends.echo plain left).color color).elim (fun there => ⟨_, there⟩) ?_
    rintro ⟨same, free⟩
    have literal : cut.literal = [Byte.hash] :=
      (Cut.spelled found .start).fixed _ (congrArg Kind.spelling? hash)
    rw [same] at color
    rw [same, literal] at part
    exact absurd ⟨digits, part, color⟩ free
  url _ _ opens := opensUrl_behind left ends.next opens
  finish none := by
    rw [none, tokensFrom_nil] at left
    obtain ⟨rfl, rfl⟩ := List.append_eq_nil_iff.1 left.symm
    exact ends.added.elim id fun added => absurd rfl added.2

theorem apart_of_cons {token : Token} (apart : Apart (token :: run)) : Apart run := by
  unfold Apart at apart ⊢
  by_cases comment : token.kind = .comment
  · rwa [kept_cons_comment comment] at apart
  · rw [kept_cons comment] at apart
    exact apart.of_cons

/-- The text of a run has the tokens that are kept of the run, and then those of what is behind
it. -/
theorem tokensFrom_join (place : Position)
    (split : (tokensFrom position source).dropLast = run ++ back) (apart : Apart run)
    (ends : Ends run back tail text) (part : join (kept run) ++ tail <:+ text) :
    (tokensFrom place (join (kept run) ++ tail)).map Token.content =
      (kept run).map Token.content ++ (tokenize tail).map Token.content := by
  induction run generalizing position source place with
  | nil => exact tokensFrom_contents place .start tail
  | cons token run ih =>
    obtain ⟨cut, found, rfl, left⟩ := tokensFrom_split split
    by_cases comment : cut.kind = .comment
    · rw [kept_cons_comment comment] at part ⊢
      exact ih place left (apart_of_cons apart) ends.next part
    · have stop : Token.stop ⟨cut.kind, cut.literal, position.after cut.gap⟩ =
          ((position.after cut.gap).after cut.literal).offset := (Position.offset_after ..).symm
      rw [join_kept_cons comment, stop, List.append_assoc] at part ⊢
      have replaces := replaces_behind found comment left apart ends part
      rw [tokensFrom_cut (Cut.replace found comment replaces), kept_cons comment, List.map_cons,
        List.map_cons, List.cons_append]
      refine congrArg _ ?_
      have later : join (kept run) ++ tail <:+
          behind ((position.after cut.gap).after cut.literal).offset run ++ tail := by
        rcases behind_eq ((position.after cut.gap).after cut.literal).offset run with is | is
        · rw [is]
        · rw [is]
          exact List.suffix_cons _ _
      have further := (later.trans (List.suffix_append cut.literal _)).trans part
      have rest (place : Position) := ih place left (apart_of_cons apart) ends.next further
      rcases behind_eq ((position.after cut.gap).after cut.literal).offset run with is | is
      · rw [is]
        exact rest _
      · rw [is]
        exact (congrArg _ (tokensFrom_blank _ _ (List.forall_mem_singleton.2 rfl))).trans (rest _)

end Runs

end Verbatim

end CssSyntax

import CssSyntax.Proofs.Comments.Bare
import CssSyntax.Proofs.Parser.Quiet
import CssSyntax.Proofs.Parser.Yield

/-! What the values of a declaration are made of. Flattened again they are the tokens between the
colon and the end of the declaration, in their order: none is lost and none is there twice. Only
commas, comments and what makes a declaration important leave nothing behind. -/

namespace CssSyntax

open Reading

mutual

/-- The bytes of a value, those of a call with its parentheses. -/
def Value.flatten : Value → Bytes
  | .basic bytes => bytes
  | .string literal => literal.content
  | .function name args => name ++ Byte.openParen :: (Value.flattenAll args ++ [Byte.closeParen])

def Value.flattenAll : List Value → Bytes
  | [] => []
  | value :: rest => Value.flatten value ++ Value.flattenAll rest

end

namespace Value

theorem flattenAll_append (left right : List Value) :
    flattenAll (left ++ right) = flattenAll left ++ flattenAll right := by
  induction left with
  | nil => rfl
  | cons value rest ih => simp only [List.cons_append, flattenAll, ih, List.append_assoc]

theorem flattenAll_toList (found : Option Value) :
    flattenAll found.toList = found.elim [] flatten := by
  cases found with
  | none => rfl
  | some value => exact List.append_nil _

end Value

/-- What a token adds to a value. The quotes of a string are no part of it, and a url is folded. -/
def Token.share (token : Token) : Bytes :=
  match token.kind with
  | .comma => []
  | .comment => []
  | .string => (StringLiteral.ofLiteral token.literal).content
  | .uri => (Value.ofUri token.literal).flatten
  | _ => token.literal

/-- What tokens add to values in their order. A `!` with the word `important` adds nothing. -/
def shares : List Token → Bytes
  | [] => []
  | [token] => token.share
  | mark :: word :: rest =>
    if mark.kind = .exclamation ∧ word.isWord Word.importantWord then shares rest
    else mark.share ++ shares (word :: rest)

theorem shares_cons {token : Token} (other : token.kind ≠ .exclamation) (rest : List Token) :
    shares (token :: rest) = token.share ++ shares rest := by
  cases rest with
  | nil => exact (List.append_nil _).symm
  | cons next rest => exact if_neg fun pair => other pair.1

/-- True of the kinds of token that values keep as they are written. -/
def Kind.isKept : Kind → Bool
  | .comma => false
  | .comment => false
  | .string => false
  | .uri => false
  | .exclamation => false
  | .eof => false
  | _ => true

theorem Token.share_eq_literal {token : Token} (kept : token.kind.isKept = true) :
    token.share = token.literal := by
  unfold Token.share
  split
  next is => exact Bool.noConfusion (is ▸ kept)
  next is => exact Bool.noConfusion (is ▸ kept)
  next is => exact Bool.noConfusion (is ▸ kept)
  next is => exact Bool.noConfusion (is ▸ kept)
  next => rfl

theorem shares_cons_of_kept {token : Token} (kept : token.kind.isKept = true)
    (rest : List Token) : shares (token :: rest) = token.literal ++ shares rest := by
  have other : token.kind ≠ .exclamation := fun is => Bool.noConfusion (is ▸ kept)
  rw [shares_cons other, token.share_eq_literal kept]

theorem shares_append_of_kept {front : List Token}
    (kept : ∀ token ∈ front, token.kind.isKept = true) (back : List Token) :
    shares (front ++ back) = Grammar.literals front ++ shares back := by
  induction front with
  | nil => rfl
  | cons token rest ih =>
    obtain ⟨first, others⟩ := List.forall_mem_cons.1 kept
    rw [List.cons_append, shares_cons_of_kept first, ih others, ← List.append_assoc]
    rfl

/-- A parenthesis is written as one. -/
def Token.IsParenthesis (token : Token) : Prop :=
  (token.kind = .openParen → token.literal = [Byte.openParen]) ∧
    (token.kind = .closeParen → token.literal = [Byte.closeParen])

theorem Token.Spelled.isParenthesis {token : Token} (spelled : token.Spelled) :
    token.IsParenthesis :=
  ⟨fun is => spelled.fixed _ (by rw [is]; rfl), fun is => spelled.fixed _ (by rw [is]; rfl)⟩

namespace Parser

/-- The tokens that stand before `parser` and no longer before `after` add the bytes to a value,
whatever stands behind them. -/
def Spends (parser after : Parser) (bytes : Bytes) : Prop :=
  ∃ front, parser.ahead = front ++ after.ahead ∧
    ∀ back, shares (front ++ back) = bytes ++ shares back

namespace Spends

variable {parser middle after : Parser} {left right : Bytes}

theorem refl : parser.Spends parser [] := ⟨[], rfl, fun _ => rfl⟩

theorem trans (near : parser.Spends middle left) (far : middle.Spends after right) :
    parser.Spends after (left ++ right) := by
  obtain ⟨first, split, adds⟩ := near
  obtain ⟨second, again, more⟩ := far
  refine ⟨first ++ second, ?_, fun back => ?_⟩
  · rw [split, again, List.append_assoc]
  · rw [List.append_assoc, adds, more, List.append_assoc]

theorem token (notEnd : parser.current.kind ≠ .eof) (other : parser.current.kind ≠ .exclamation) :
    parser.Spends (parser.skip 1) parser.current.share :=
  ⟨[parser.current], Parser.ahead_eq_skip notEnd, shares_cons other⟩

theorem kept (kept : parser.current.kind.isKept = true) :
    parser.Spends (parser.skip 1) parser.current.literal := by
  have notEnd : parser.current.kind ≠ .eof := fun is => Bool.noConfusion (is ▸ kept)
  exact ⟨[parser.current], ahead_eq_skip notEnd, shares_cons_of_kept kept⟩

theorem important (mark : parser.current.kind = .exclamation)
    (word : parser.next.isWord Word.importantWord = true) :
    parser.Spends ((parser.skip 1).skip 1) [] := by
  have name : parser.next.kind = .ident := eq_of_beq (Bool.and_eq_true_iff.1 word).1
  have first : parser.ahead = parser.current :: (parser.skip 1).ahead :=
    ahead_eq_skip (mark.trans_ne nofun)
  have second : (parser.skip 1).ahead = parser.next :: ((parser.skip 1).skip 1).ahead := by
    rw [← current_skip]
    exact ahead_eq_skip (by rw [current_skip, name]; exact nofun)
  refine ⟨[parser.current, parser.next], ?_, fun back => if_pos ⟨mark, word⟩⟩
  rw [first, second]
  rfl

end Spends

end Parser

namespace Grammar

variable {tokens : List Token} {parser : Parser} {room : Nat}

open Quietly

theorem take_spends {span : List Token → Nat}
    (kept : ∀ token ∈ parser.ahead.take (span parser.ahead), token.kind.isKept = true) :
    (take span).Quietly tokens parser fun found after => parser.Spends after (literals found) :=
  fun _ _ => ⟨_, (List.take_append_drop _ _).symm, shares_append_of_kept kept⟩

theorem marks_kept (tokens : List Token) :
    ∀ token ∈ tokens.take (Span.marks tokens), token.kind.isKept = true := by
  intro token member
  unfold Span.marks at member
  rw [take_before] at member
  have mark := List.mem_takeWhile_imp member
  rw [Bool.not_not] at mark
  rcases Parser.kind_of_mark mark with minus | plus | dot
  · exact minus ▸ rfl
  · exact plus ▸ rfl
  · exact dot ▸ rfl

theorem glued_kept (stop : Nat) (tokens : List Token) :
    ∀ token ∈ tokens.take (Span.glued stop tokens), token.kind.isKept = true := by
  intro token member
  rcases Span.glued_kinds stop token member with name | number
  · exact name ▸ rfl
  · exact number ▸ rfl

theorem tokenValue_spends {meaning : Bytes → Value} (notEnd : parser.current.kind ≠ .eof)
    (other : parser.current.kind ≠ .exclamation)
    (means : (meaning parser.current.literal).flatten = parser.current.share) :
    (tokenValue meaning).Quietly tokens parser fun value after =>
      parser.Spends after value.flatten := by
  refine Quietly.current (after (pure ?_))
  rw [means]
  exact .token notEnd other

theorem plainValue_spends (kept : parser.current.kind.isKept = true) :
    plainValue.Quietly tokens parser fun value after => parser.Spends after value.flatten :=
  Quietly.current (after (pure (.kept kept)))

theorem numberWithUnit_spends (is : parser.current.kind = .number) :
    (numberWithUnit parser.current).Quietly tokens parser fun bytes after =>
      parser.Spends after bytes := by
  have number : parser.Spends (parser.skip 1) parser.current.literal := .kept (is ▸ rfl)
  refine look (ite (fun follows => ?_) fun _ => after (pure number))
  have unit : parser.next.kind.isKept = true := by
    rcases Bool.or_eq_true_iff.1 (Bool.and_eq_true_iff.1 follows).2 with percentage | named
    · exact nextIs_iff.1 percentage ▸ rfl
    · exact nextIs_iff.1 (Bool.and_eq_true_iff.1 named).1 ▸ rfl
  rw [← Parser.current_skip] at unit
  exact after (Quietly.current (after (pure (number.trans (.kept unit)))))

theorem numeric_spends :
    numeric.Quietly tokens parser fun bytes after => parser.Spends after bytes := by
  refine bind (take_spends (marks_kept _)) fun marks after before => ?_
  refine Quietly.current (ite (fun is => ?_) fun _ => pure before)
  exact returning (numberWithUnit_spends is) fun bytes last number => before.trans number

/-- A sign or a point. -/
theorem markValue_spends (kept : parser.current.kind.isKept = true) :
    markValue.Quietly tokens parser fun value after => parser.Spends after value.flatten :=
  look (ite (fun _ => returning numeric_spends fun _ _ spends => spends) fun _ =>
    plainValue_spends kept)

theorem hashValue_spends (is : parser.current.kind = .hash) :
    hashValue.Quietly tokens parser fun value after => parser.Spends after value.flatten := by
  have hash : parser.Spends (parser.skip 1) parser.current.literal := .kept (is ▸ rfl)
  refine Quietly.current (after (returning (take_spends (glued_kept _ _)) ?_))
  exact fun rest last glued => hash.trans glued

/-- A comma or a comment adds nothing. -/
theorem separator_spends
    (separates : parser.current.kind = .comma ∨ parser.current.kind = .comment) :
    parser.Spends (parser.skip 1) [] := by
  rcases separates with comma | comment
  · have nothing : parser.current.share = [] := by rw [Token.share, comma]
    exact nothing ▸ .token (comma.trans_ne nofun) (comma.trans_ne nofun)
  · have nothing : parser.current.share = [] := by rw [Token.share, comment]
    exact nothing ▸ .token (comment.trans_ne nofun) (comment.trans_ne nofun)

section Separated

variable {value : Reading (Option Value)}

/-- The values are those of a reading that is not met at a comma or a comment. -/
def ReadsValue (tokens : List Token) (value : Reading (Option Value)) (parser : Parser) : Prop :=
  parser.current.kind ≠ .comma → parser.current.kind ≠ .comment →
    value.Quietly tokens parser fun found after =>
      parser.Spends after (Value.flattenAll found.toList)

theorem separatedValue_spends (reads : ReadsValue tokens value parser) :
    (separatedValue value).Quietly tokens parser fun found after =>
      parser.Spends after (Value.flattenAll found) := by
  refine Quietly.current (ite (fun separates => ?_) fun other => ?_)
  · exact after (pure (separator_spends separates))
  · rw [not_or] at other
    exact returning (reads other.1 other.2) fun _ _ is => is

theorem separated_spends {stop : Token → Bool} (reads : ∀ parser, ReadsValue tokens value parser) :
    (collect stop (separatedValue value)).Quietly tokens parser fun found after =>
      parser.Spends after (Value.flattenAll found) := by
  refine collect_quietly (fun found after _ before => ?_) .refl
  refine (separatedValue_spends (reads after)).mono fun more last is => ?_
  rw [Value.flattenAll_append]
  exact before.trans is

end Separated

theorem some_spends {reading : Reading Value}
    (spends : reading.Quietly tokens parser fun value after =>
      parser.Spends after value.flatten) :
    (some <$> reading).Quietly tokens parser fun found after =>
      parser.Spends after (Value.flattenAll found.toList) := by
  refine map spends fun value rest single => ?_
  rwa [Value.flattenAll_toList]

/-- What stands behind an opening parenthesis adds all that is in the group, and its end. -/
def ReadsArguments (tokens : List Token) (arguments : Reading (List Value)) : Prop :=
  ∀ parser, arguments.Quietly tokens parser fun args after =>
    parser.Spends after (Value.flattenAll args ++ [Byte.closeParen])

theorem current_mem (last : parser.ahead <:+ tokens) (notEnd : parser.current.kind ≠ .eof) :
    parser.current ∈ tokens :=
  last.subset (Parser.ahead_eq_skip notEnd ▸ List.mem_cons_self)

section Values

variable (written : ∀ token ∈ tokens, token.IsParenthesis)
include written

theorem openParen_spends (last : parser.ahead <:+ tokens)
    (is : parser.current.kind = .openParen) :
    parser.Spends (parser.skip 1) [Byte.openParen] := by
  have opens : parser.Spends (parser.skip 1) parser.current.literal := .kept (is ▸ rfl)
  have among := current_mem last (is.trans_ne nofun)
  rwa [(written _ among).1 is] at opens

theorem closeParen_spends (last : parser.ahead <:+ tokens)
    (is : parser.current.kind = .closeParen) :
    parser.Spends (parser.skip 1) [Byte.closeParen] := by
  have closes : parser.Spends (parser.skip 1) parser.current.literal := .kept (is ▸ rfl)
  have among := current_mem last (is.trans_ne nofun)
  rwa [(written _ among).2 is] at closes

section Calls

variable {arguments : Reading (List Value)} (reads : ReadsArguments tokens arguments)
include reads

theorem groupValue_spends (is : parser.current.kind = .openParen) :
    (groupValue arguments).Quietly tokens parser fun value after =>
      parser.Spends after value.flatten := by
  refine within fun last => after (returning (reads _) fun args rest inner => ?_)
  exact (openParen_spends written last is).trans inner

theorem callWith_spends (name : parser.current.kind = .ident)
    (opens : parser.next.kind = .openParen) :
    (callWith arguments).Quietly tokens parser fun value after =>
      parser.Spends after value.flatten := by
  have first : parser.Spends (parser.skip 1) parser.current.literal := .kept (name ▸ rfl)
  rw [← Parser.current_skip] at opens
  refine Quietly.current (after (within fun last => after ?_))
  refine returning (reads _) fun args rest inner => first.trans ?_
  exact (openParen_spends written last opens).trans inner

theorem nameValue_spends (name : parser.current.kind = .ident) :
    (nameValue arguments).Quietly tokens parser fun value after =>
      parser.Spends after value.flatten := by
  refine look (ite (fun opens => ?_) fun _ => plainValue_spends (name ▸ rfl))
  exact callWith_spends written reads name (nextIs_iff.1 opens)

theorem valueWith_reads : ReadsValue tokens (valueWith arguments) parser := by
  intro notComma notComment
  apply Quietly.current
  split
  next => exact some_spends (map numeric_spends fun _ _ spends => spends)
  next is => exact some_spends (markValue_spends (is ▸ rfl))
  next is => exact some_spends (markValue_spends (is ▸ rfl))
  next is => exact some_spends (markValue_spends (is ▸ rfl))
  next is => exact some_spends (nameValue_spends written reads is)
  next is =>
    refine some_spends (tokenValue_spends (is.trans_ne nofun) (is.trans_ne nofun) ?_)
    rw [Token.share, is]
  next is =>
    refine some_spends (tokenValue_spends (is.trans_ne nofun) (is.trans_ne nofun) ?_)
    rw [Token.share, is]
    rfl
  next is => exact some_spends (groupValue_spends written reads is)
  next is => exact some_spends (hashValue_spends is)
  next => exact report
  next => exact report
  next => exact report
  next => exact pure .refl
  next =>
    refine some_spends (plainValue_spends ?_)
    unfold Kind.isKept
    split <;> simp_all

end Calls

theorem closeArguments_spends :
    closeArguments.Quietly tokens parser fun _ after => parser.Spends after [Byte.closeParen] := by
  refine within fun last => Quietly.current (ite (fun closes => ?_) fun _ => ?_)
  · exact fun _ _ => closeParen_spends written last closes
  · exact ite (fun _ => of_found (by simp)) fun _ => of_found (by simp)

theorem argumentsWith_reads {value : Reading (Option Value)}
    (reads : ∀ parser, ReadsValue tokens value parser) :
    ReadsArguments tokens (argumentsWith value) := by
  intro parser
  refine bind (separated_spends reads) fun args after inner => ?_
  exact bind (closeArguments_spends written) fun _ last closes => pure (inner.trans closes)

/-- Inside a call that is read without a problem stand its arguments and nothing else. -/
theorem arguments_reads (room : Nat) : ReadsArguments tokens (arguments room) := by
  induction room with
  | zero => exact fun parser => report
  | succ room inner =>
    exact argumentsWith_reads written fun parser => valueWith_reads written inner

omit written in
theorem values_of_atoms (values : List Value) :
    (values.map DeclarationPart.atom).filterMap DeclarationPart.value? = values := by
  rw [List.filterMap_map]
  exact List.filterMap_some

theorem declarationPart_spends :
    (declarationPart (value room)).Quietly tokens parser fun parts after =>
      parser.Spends after (Value.flattenAll (parts.filterMap DeclarationPart.value?)) := by
  refine look (ite (fun follows => ?_) fun _ => ?_)
  · obtain ⟨mark, word⟩ := Bool.and_eq_true_iff.1 follows
    exact after (after (pure (.important (currentIs_iff.1 mark) word)))
  · have reads : ReadsValue tokens (value room) parser :=
      valueWith_reads written (arguments_reads written room)
    refine returning (separatedValue_spends reads) fun values after is => ?_
    rwa [values_of_atoms]

theorem declarationBody_spends {key : Bytes} :
    (declarationBody room key).Quietly tokens parser fun found after =>
      IfAny (fun declaration => declaration.key = key ∧
        parser.Spends after (Value.flattenAll declaration.value)) found := by
  have parts : (collect endsDeclaration (declarationPart (value room))).Quietly tokens parser
      fun parts after =>
        parser.Spends after (Value.flattenAll (parts.filterMap DeclarationPart.value?)) := by
    refine collect_quietly (fun parts after _ before => ?_) .refl
    refine (declarationPart_spends written).mono fun more last is => ?_
    rw [List.filterMap_append, Value.flattenAll_append]
    exact before.trans is
  refine bind parts fun parts after is => ite (fun _ => report) fun _ => pure ?_
  exact IfAny.some ⟨rfl, is⟩

/-- Behind the name of a declaration and its colon stand its values and nothing else. -/
theorem declaration_spends :
    (declaration room).Quietly tokens parser fun found after =>
      IfAny (fun declaration => ∃ name colon body,
        parser.ahead = name :: colon :: body ++ after.ahead ∧ name.literal = declaration.key ∧
          colon.kind = .colon ∧ shares body = Value.flattenAll declaration.value) found := by
  refine Quietly.current (ite (fun name => after (expect fun colon => ?_)) fun _ => report)
  refine (declarationBody_spends written).mono fun found last each declaration is => ?_
  obtain ⟨key, body, split, adds⟩ := each declaration is
  have first : parser.ahead = parser.current :: (parser.skip 1).ahead :=
    Parser.ahead_eq_skip (name.trans_ne nofun)
  have second : (parser.skip 1).ahead = (parser.skip 1).current :: ((parser.skip 1).skip 1).ahead :=
    Parser.ahead_eq_skip (colon.trans_ne nofun)
  refine ⟨parser.current, (parser.skip 1).current, body, ?_, key.symm, colon, ?_⟩
  · rw [first, second]
    exact congrArg (_ :: _ :: ·) split
  · simpa [shares] using adds []

end Values

end Grammar

/-- Where a declaration is read without a problem, its values flattened are what the tokens behind
its colon add, up to where the reading stops. -/
theorem declaration_conserves (room : Nat) (parser : Parser) (declaration : Declaration)
    (written : ∀ token ∈ parser.ahead, token.IsParenthesis)
    (unlimited : parser.settings.maxErrors = none)
    (found : (Grammar.declaration room parser).1 = some declaration)
    (clean : (Grammar.declaration room parser).2.errors = parser.errors) :
    ∃ name colon body, (Grammar.declaration room).taken parser = name :: colon :: body ∧
      name.literal = declaration.key ∧ colon.kind = .colon ∧
        shares body = Value.flattenAll declaration.value := by
  have each := (Grammar.declaration_spends written).holds List.suffix_rfl unlimited clean
  obtain ⟨name, colon, body, split, rest⟩ := each declaration found
  exact ⟨name, colon, body, taken_eq split.symm, rest⟩

/-- Numbers with signs and units, a hash, a string and a url inside calls and groups. -/
theorem declaration_conserves_nested :
    ∃ parser declaration, parser = Parser.ofTokens .standard (tokenize
        (utf8 "a: -.5px #12ab f(b, \"c\" (/*d*/ url( e ) 1%)) g ! important; h")) ∧
      (Grammar.declaration 2 parser).1 = some declaration ∧
      (Grammar.declaration 2 parser).2.errors = parser.errors ∧
      Value.flattenAll declaration.value = utf8 "-.5px#12abf(bc(url(e)1%))g" ∧
      ∃ name colon body, (Grammar.declaration 2).taken parser = name :: colon :: body ∧
        name.literal = declaration.key ∧ colon.kind = .colon ∧
          shares body = Value.flattenAll declaration.value := by
  obtain ⟨parser, is⟩ : ∃ parser, parser = Parser.ofTokens .standard (tokenize
    (utf8 "a: -.5px #12ab f(b, \"c\" (/*d*/ url( e ) 1%)) g ! important; h")) := ⟨_, rfl⟩
  have flat : (Grammar.declaration 2 parser).1.map (fun found => Value.flattenAll found.value) =
      some (utf8 "-.5px#12abf(bc(url(e)1%))g") := by
    rw [is]
    decide +kernel
  obtain ⟨declaration, found, whole⟩ := Option.map_eq_some_iff.1 flat
  have clean : (Grammar.declaration 2 parser).2.errors = parser.errors := by
    rw [is]
    decide +kernel
  have unlimited : parser.settings.maxErrors = none := by
    rw [is]
    decide +kernel
  have written : ∀ token ∈ parser.ahead, token.IsParenthesis := by
    rw [is]
    exact fun token member => (Parser.ofTokens_spelled _ _ token member).isParenthesis
  have same := declaration_conserves 2 parser declaration written unlimited found clean
  exact ⟨parser, declaration, is, found, clean, whole, same⟩

end CssSyntax

import CssSyntax.Proofs.Grammar.Prelude
import CssSyntax.Proofs.Value.Important

/-! How far a support condition goes. Between its groups, names and declarations it stops at every
structural token. Only the arguments of a call, and those of a group among values, are read as the
values of a declaration are: there a `{` is dropped with a problem, and the arguments go on. -/

namespace CssSyntax

open Reading Grammar

/-- The tokens behind an opening parenthesis, up to the closing one at most, where `depth` groups
are open inside of it. What ends a declaration ends them. -/
def Held : Nat → List Token → Prop
  | _, [] => True
  | depth, token :: rest =>
    endsDeclaration token = false ∧
      match token.kind with
      | .openParen => Held (depth + 1) rest
      | .closeParen => if depth = 0 then rest = [] else Held (depth - 1) rest
      | _ => Held depth rest

/-- Values, none of which starts with a token of `stop`, in the order in which they are read. -/
inductive Values (stop : Token → Bool) : List Token → Prop where
  | nil : Values stop []
  | token {token : Token} {rest : List Token} (going : stop token = false)
      (more : Values stop rest) : Values stop (token :: rest)
  | group {opening : Token} {arguments rest : List Token} (opens : opening.kind = .openParen)
      (held : Held 0 arguments) (more : Values stop rest) :
      Values stop (opening :: (arguments ++ rest))

/-- True of the words that conditions are joined and negated by. -/
def Token.isSupportsWord (token : Token) : Bool :=
  token.isWord Word.andWord || token.isWord Word.orWord || token.isWord Word.notWord

/-- Conditions, with no structural token outside of the arguments of a call or of a group among the
values of a declaration. -/
inductive Confined : List Token → Prop where
  | nil : Confined []
  | token {token : Token} {rest : List Token} (plain : token.isStructural = false)
      (more : Confined rest) : Confined (token :: rest)
  | call {name opening : Token} {arguments rest : List Token} (named : name.kind = .ident)
      (free : name.isSupportsWord = false) (opens : opening.kind = .openParen)
      (held : Held 0 arguments) (more : Confined rest) :
      Confined (name :: opening :: (arguments ++ rest))
  | declaration {key colon : Token} {values rest : List Token} (named : key.kind = .ident)
      (free : key.isSupportsWord = false) (marked : colon.kind = .colon)
      (inner : Values endsSupportsDeclaration values) (more : Confined rest) :
      Confined (key :: colon :: (values ++ rest))

/-- Every `{` among the tokens is one of the problems. -/
def BracesReported (tokens : List Token) (found : List Diagnostic) : Prop :=
  ∀ token ∈ tokens, token.kind = .openBrace →
    Diagnostic.ofToken (.misplaced "declaration value") token ∈ found

theorem BracesReported.append {first second : List Token} {near far : List Diagnostic}
    (before : BracesReported first near) (behind : BracesReported second far) :
    BracesReported (first ++ second) (near ++ far) := by
  intro token member opens
  rcases List.mem_append.1 member with early | late
  · exact List.mem_append_left _ (before token early opens)
  · exact List.mem_append_right _ (behind token late opens)

theorem BracesReported.of_none {tokens : List Token} {found : List Diagnostic}
    (none : ∀ token ∈ tokens, token.kind ≠ .openBrace) : BracesReported tokens found :=
  fun token member opens => absurd opens (none token member)

theorem BracesReported.cons {token : Token} {tokens : List Token} {found : List Diagnostic}
    (other : token.kind ≠ .openBrace) (reported : BracesReported tokens found) :
    BracesReported (token :: tokens) found := by
  have none : BracesReported [token] [] := .of_none (List.forall_mem_singleton.2 other)
  exact none.append reported

section Shapes

variable {depth : Nat} {stop : Token → Bool} {first second tokens rest : List Token}

/-- More groups around the tokens do no harm: they can stay open. -/
theorem Held.deeper (held : Held depth tokens) : Held (depth + 1) tokens := by
  induction tokens generalizing depth with
  | nil => trivial
  | cons token rest ih =>
    obtain ⟨going, held⟩ := held
    refine ⟨going, ?_⟩
    split at held
    next => exact ih held
    next =>
      rw [if_neg (Nat.succ_ne_zero depth), Nat.add_sub_cancel]
      split at held
      next flat =>
        subst held
        trivial
      next inside =>
        have same : depth - 1 + 1 = depth := by omega
        exact same ▸ ih held
    next => exact ih held

theorem Held.deepen (held : Held depth tokens) (more : Nat) : Held (depth + more) tokens := by
  induction more with
  | zero => exact held
  | succ more ih => exact ih.deeper

/-- A group inside of another one. -/
theorem Held.inside {arguments : List Token} {inner : Nat} (group : Held inner arguments)
    (held : Held depth rest) : Held (depth + inner + 1) (arguments ++ rest) := by
  -- On the arguments: where their group is closed, the rest is as deep as before it.
  induction arguments generalizing inner with
  | nil => exact held.deepen (inner + 1)
  | cons token others ih =>
    obtain ⟨going, group⟩ := group
    refine ⟨going, ?_⟩
    split at group
    next => exact ih group
    next =>
      rw [if_neg (Nat.succ_ne_zero _), Nat.add_sub_cancel]
      split at group
      next last =>
        subst group
        exact held.deepen inner
      next open_ =>
        have same : depth + (inner - 1) + 1 = depth + inner := by omega
        exact same ▸ ih group
    next => exact ih group

theorem Values.append (near : Values stop first) (far : Values stop second) :
    Values stop (first ++ second) := by
  induction near with
  | nil => exact far
  | token going _ ih => exact .token going ih
  | group opens held _ ih =>
    rw [List.cons_append, List.append_assoc]
    exact .group opens held ih

theorem Confined.append (near : Confined first) (far : Confined second) :
    Confined (first ++ second) := by
  induction near with
  | nil => exact far
  | token plain _ ih => exact .token plain ih
  | call named free opens held _ ih =>
    rw [List.cons_append, List.cons_append, List.append_assoc]
    exact .call named free opens held ih
  | declaration named free marked inner _ ih =>
    rw [List.cons_append, List.cons_append, List.append_assoc]
    exact .declaration named free marked inner ih

theorem Confined.of_level (level : ∀ token ∈ tokens, token.isStructural = false) :
    Confined tokens := by
  induction tokens with
  | nil => exact .nil
  | cons token rest ih =>
    obtain ⟨plain, others⟩ := List.forall_mem_cons.1 level
    exact .token plain (ih others)

/-- The values of a call are among its arguments. -/
theorem Values.held (values : Values endsArguments tokens) (held : Held depth rest) :
    Held depth (tokens ++ rest) := by
  induction values generalizing depth with
  | nil => exact held
  | token going more ih =>
    obtain ⟨notClosing, goes⟩ := not_or.1 (mt endsArguments_iff.2 (Bool.eq_false_iff.1 going))
    refine ⟨Bool.eq_false_iff.2 goes, ?_⟩
    split
    next => exact (ih held).deeper
    next closes => exact absurd closes notClosing
    next => exact ih held
  | group opens group more ih =>
    rw [List.cons_append, List.append_assoc]
    refine ⟨by simp [endsDeclaration, opens], ?_⟩
    rw [opens]
    exact Held.inside group (ih held)

theorem going_of_level {token : Token} (level : ¬token.isStructural = true) :
    endsDeclaration token = false :=
  Bool.eq_false_iff.2 fun ends => level (isStructural_iff.2 (.inr ends))

theorem going_of_kind {token : Token} {kind : Kind} (is : token.kind = kind)
    (plain : endsDeclaration ⟨kind, [], .start⟩ = false) : endsDeclaration token = false := by
  rw [← plain, ← is]
  rfl

theorem Held.going (held : Held depth tokens) :
    ∀ token ∈ tokens, endsDeclaration token = false := by
  induction tokens generalizing depth with
  | nil => exact List.forall_mem_nil _
  | cons token rest ih =>
    obtain ⟨going, held⟩ := held
    refine List.forall_mem_cons.2 ⟨going, ?_⟩
    split at held
    next => exact ih held
    next =>
      split at held
      next =>
        subst held
        exact List.forall_mem_nil _
      next => exact ih held
    next => exact ih held

theorem Values.going (stops : ∀ token, stop token = false → endsDeclaration token = false)
    (values : Values stop tokens) : ∀ token ∈ tokens, endsDeclaration token = false := by
  induction values with
  | nil => exact List.forall_mem_nil _
  | token going _ ih => exact List.forall_mem_cons.2 ⟨stops _ going, ih⟩
  | group opens held _ ih =>
    have inner := List.forall_mem_append.2 ⟨held.going, ih⟩
    exact List.forall_mem_cons.2 ⟨going_of_kind opens rfl, inner⟩

theorem Confined.going (confined : Confined tokens) :
    ∀ token ∈ tokens, endsDeclaration token = false := by
  induction confined with
  | nil => exact List.forall_mem_nil _
  | token plain _ ih =>
    exact List.forall_mem_cons.2 ⟨going_of_level (Bool.eq_false_iff.1 plain), ih⟩
  | call named _ opens held _ ih =>
    have inner := List.forall_mem_append.2 ⟨held.going, ih⟩
    exact List.forall_mem_cons.2
      ⟨going_of_kind named rfl, List.forall_mem_cons.2 ⟨going_of_kind opens rfl, inner⟩⟩
  | declaration named _ marked values _ ih =>
    have stops (token : Token) (going : endsSupportsDeclaration token = false) :
        endsDeclaration token = false :=
      going_of_level (Bool.eq_false_iff.1 (Bool.or_eq_false_iff.1 going).2)
    have inner := List.forall_mem_append.2 ⟨values.going stops, ih⟩
    exact List.forall_mem_cons.2
      ⟨going_of_kind named rfl, List.forall_mem_cons.2 ⟨going_of_kind marked rfl, inner⟩⟩

/-- A group that is skipped, whose tokens are counted alone. -/
theorem Held.of_group (opened : Nat) (tokens : List Token) :
    Held opened (tokens.take (Span.group opened tokens)) := by
  fun_induction Span.group opened tokens with
  | case1 => trivial
  | case2 => trivial
  | case3 opened token rest going opens ih =>
    refine ⟨going_of_level going, ?_⟩
    rw [opens]
    exact ih
  | case4 token rest going closes =>
    refine ⟨going_of_level going, ?_⟩
    rw [closes]
    rfl
  | case5 opened token rest going closes inner ih =>
    refine ⟨going_of_level going, ?_⟩
    rw [closes]
    exact if_neg inner ▸ ih
  | case6 opened token rest going notOpen notClose ih =>
    refine ⟨going_of_level going, ?_⟩
    split
    next opens => exact absurd opens notOpen
    next closes => exact absurd closes notClose
    next => exact ih

end Shapes

/-- Values, with every `{` among them a problem. -/
def Trail.values (stop : Token → Bool) : Trail where
  Allows tokens found := Values stop tokens ∧ BracesReported tokens found
  staying _ := ⟨.nil, .of_none (List.forall_mem_nil _)⟩
  append near far := ⟨near.1.append far.1, near.2.append far.2⟩

/-- Conditions, with every `{` among them a problem. -/
def Trail.conditions : Trail where
  Allows tokens found := Confined tokens ∧ BracesReported tokens found
  staying _ := ⟨.nil, .of_none (List.forall_mem_nil _)⟩
  append near far := ⟨near.1.append far.1, near.2.append far.2⟩

namespace Grammar

variable {α β : Type} {parser : Parser} {stop : Token → Bool}

/-- What the reading takes are the arguments of a call or of a group. -/
def HoldsArguments (reading : Reading α) (parser : Parser) : Prop :=
  Held 0 (reading.taken parser) ∧ BracesReported (reading.taken parser) (reading.found parser)

section Values

open Keeps

variable (free : ∀ token, isInert token = true → stop token = false)

theorem token_allowed {token : Token} {found : List Diagnostic} (going : stop token = false)
    (other : token.kind ≠ .openBrace) : (Trail.values stop).Allows [token] found :=
  ⟨.token going .nil, .of_none (List.forall_mem_singleton.2 other)⟩

include free in
theorem inert_allowed {tokens : List Token} {found : List Diagnostic}
    (inert : ∀ token ∈ tokens, isInert token = true) : (Trail.values stop).Allows tokens found := by
  refine ⟨?_, .of_none fun token member opens => ?_⟩
  · induction tokens with
    | nil => exact .nil
    | cons token rest ih =>
      obtain ⟨first, others⟩ := List.forall_mem_cons.1 inert
      exact .token (free token first) (ih others)
  · have first := inert token member
    simp [isInert, opens] at first

include free in
theorem keeps_of_inert {reading : Reading α} {front : List Token}
    (split : parser.ahead = front ++ (reading parser).2.ahead)
    (inert : ∀ token ∈ front, isInert token = true) : reading.Keeps (.values stop) parser := by
  unfold Keeps
  rw [taken_eq split.symm]
  exact inert_allowed free inert

include free in
theorem hashValue_keeps (is : parser.current.kind = .hash) :
    hashValue.Keeps (.values stop) parser := by
  have going := free parser.current (by simp [isInert, is])
  refine current ((advance (token_allowed going (by simp [is]))).bind (returning (take ?_)))
  exact inert_allowed free (glued_inert _ _)

include free in
/-- Where a value starts with a number, what it takes is inert. -/
theorem numericValue_keeps {less : Nat}
    (starts : parser.current.kind = .number ∨ parser.startsNumeric = true) :
    (value less).Keeps (.values stop) parser := by
  obtain ⟨front, split, inert⟩ := numericValue_inert less starts
  exact keeps_of_inert free split inert

theorem tokenValue_keeps {meaning : Bytes → Value} (going : stop parser.current = false)
    (other : parser.current.kind ≠ .openBrace) :
    (tokenValue meaning).Keeps (.values stop) parser :=
  current (returning (advance (token_allowed going other)))

theorem droppedValue_keeps (going : stop parser.current = false)
    (notEnd : parser.current.kind ≠ .eof) : droppedValue.Keeps (.values stop) parser := by
  have taken : droppedValue.taken parser = [parser.current] := by
    apply taken_eq
    have same : (droppedValue parser).2.ahead = (parser.skip 1).ahead := by
      change ((report _ parser).2.skip 1).ahead = _
      unfold Parser.skip
      rw [ahead_report]
    rw [same, Parser.ahead_eq_skip notEnd]
    rfl
  have found : droppedValue.found parser =
      [Diagnostic.ofToken (.misplaced "declaration value") parser.current] := by
    unfold droppedValue
    rw [found_bind, found_report]
    rfl
  unfold Keeps
  rw [taken, found]
  refine ⟨.token going .nil, fun token member _ => ?_⟩
  obtain rfl := List.mem_singleton.1 member
  exact List.mem_singleton_self _

/-- A parenthesis, and what is read behind it. -/
def behindOpening (arguments : Reading α) (change : α → β) : Reading β := do
  advance
  return change (← arguments)

theorem behindOpening_taken {arguments : Reading α} {change : α → β}
    (notEnd : parser.current.kind ≠ .eof) :
    (behindOpening arguments change).taken parser =
      parser.current :: arguments.taken (parser.skip 1) := by
  unfold behindOpening
  rw [taken_bind, taken_advance notEnd, bind_pure_comp, taken_map]
  rfl

theorem behindOpening_found {arguments : Reading α} {change : α → β} :
    (behindOpening arguments change).found parser = arguments.found (parser.skip 1) := by
  unfold behindOpening
  rw [found_bind, bind_pure_comp, found_map]
  rfl

theorem behindOpening_keeps {arguments : Reading α} {change : α → β}
    (opens : parser.current.kind = .openParen)
    (inner : ∀ parser, HoldsArguments arguments parser) :
    (behindOpening arguments change).Keeps (.values stop) parser := by
  obtain ⟨held, reported⟩ := inner (parser.skip 1)
  unfold Keeps
  rw [behindOpening_taken (opens.trans_ne nofun), behindOpening_found]
  constructor
  · have group : Values stop (parser.current :: (arguments.taken (parser.skip 1) ++ [])) :=
      .group opens held .nil
    rwa [List.append_nil] at group
  · exact reported.cons (opens.trans_ne nofun)

section Calls

variable {less : Nat} (inner : ∀ parser, HoldsArguments (arguments less) parser)
include free inner

theorem nameValue_keeps (name : parser.current.kind = .ident) :
    (nameValue (arguments less)).Keeps (.values stop) parser := by
  have going := free parser.current (by simp [isInert, name])
  refine look (ite (fun opens => ?_) fun _ => tokenValue_keeps going (by simp [name]))
  have is : (parser.skip 1).current.kind = .openParen := by
    rw [Parser.current_skip]
    exact nextIs_iff.1 opens
  have group {change : List Value → Value} :
      (behindOpening (arguments less) change).Keeps (.values stop) (parser.skip 1) :=
    behindOpening_keeps is inner
  exact current ((advance (token_allowed going (by simp [name]))).bind group)

theorem value_keeps (going : stop parser.current = false)
    (notEnd : parser.current.kind ≠ .eof) : (value less).Keeps (.values stop) parser := by
  by_cases starts : parser.current.kind = .number ∨ parser.startsNumeric = true
  · exact numericValue_keeps free starts
  have mark (is : isInert parser.current = true) :
      (some <$> markValue).Keeps (.values stop) parser := by
    refine map (look (ite (fun mark => absurd (.inr mark) starts) fun _ => ?_))
    exact tokenValue_keeps going fun opens => by simp [isInert, opens] at is
  have plain {meaning : Bytes → Value} (other : parser.current.kind ≠ .openBrace) :
      (some <$> tokenValue meaning).Keeps (.values stop) parser :=
    map (tokenValue_keeps going other)
  apply Keeps.current
  split
  next is => exact absurd (.inl is) starts
  next is => exact mark (by simp [isInert, is])
  next is => exact mark (by simp [isInert, is])
  next is => exact mark (by simp [isInert, is])
  next is => exact map (nameValue_keeps free inner is)
  next is => exact plain (by simp [is])
  next is => exact plain (by simp [is])
  next is => exact map (behindOpening_keeps is inner)
  next is => exact map (hashValue_keeps free is)
  next => exact droppedValue_keeps going notEnd
  next => exact droppedValue_keeps going notEnd
  next => exact droppedValue_keeps going notEnd
  next ended => exact absurd ended notEnd
  next => exact plain (by assumption)

end Calls

include free in
theorem separatedValue_keeps {less : Nat} (inner : ∀ parser, HoldsArguments (arguments less) parser)
    (going : stop parser.current = false) (notEnd : parser.current.kind ≠ .eof) :
    (separatedValue (value less)).Keeps (.values stop) parser := by
  refine current (ite (fun separates => ?_) fun _ =>
    returning (value_keeps free inner going notEnd))
  refine returning (advance (inert_allowed free (List.forall_mem_singleton.2 ?_)))
  rcases separates with is | is <;> simp [isInert, is]

theorem free_of_endsArguments (token : Token) (inert : isInert token = true) :
    endsArguments token = false := by
  unfold isInert at inert
  cases is : token.kind <;> simp_all [endsArguments]

/-- What closes a call is its parenthesis, or nothing. -/
theorem closeArguments_taken (parser : Parser) :
    closeArguments.taken parser = [] ∨
      ∃ closing, closing.kind = .closeParen ∧ closeArguments.taken parser = [closing] := by
  unfold closeArguments
  rw [taken_current]
  split
  next closes => exact .inr ⟨parser.current, closes, taken_advance (closes.trans_ne nofun)⟩
  next =>
    split
    next => exact .inl (taken_report _ _)
    next => exact .inl (taken_report _ _)

theorem refusedArguments_holds (parser : Parser) : HoldsArguments refusedArguments parser := by
  have taken : refusedArguments.taken parser =
      parser.ahead.take (Span.group 0 parser.ahead) := by
    unfold refusedArguments Reading.skipGroup
    simp [taken_bind, ahead_report]
  unfold HoldsArguments
  rw [taken]
  refine ⟨Held.of_group 0 _, .of_none fun token member => ?_⟩
  exact kind_ne_of_going (fun _ _ => rfl) (Span.group_level 0 _ token member)

/-- The arguments of a call are values, then a parenthesis if they are closed. -/
theorem arguments_holds (less : Nat) (parser : Parser) :
    HoldsArguments (arguments less) parser := by
  induction less generalizing parser with
  | zero => exact refusedArguments_holds parser
  | succ less ih =>
    have item (parser : Parser) (going : endsArguments parser.current = false) :
        (separatedValue (value less)).Keeps (.values endsArguments) parser :=
      separatedValue_keeps free_of_endsArguments ih going (kind_ne_of_going (fun _ _ => rfl) going)
    obtain ⟨values, reported⟩ := Keeps.collect separatedValue_advances item parser
    let values' := collect endsArguments (separatedValue (value less))
    have taken : (arguments (less + 1)).taken parser =
        values'.taken parser ++ closeArguments.taken (values' parser).2 := by
      change (values' >>= fun args => closeArguments >>= fun _ => pure args).taken parser = _
      rw [taken_bind, taken_bind, taken_pure, List.append_nil]
    have found : (arguments (less + 1)).found parser =
        values'.found parser ++ closeArguments.found (values' parser).2 := by
      change (values' >>= fun args => closeArguments >>= fun _ => pure args).found parser = _
      rw [found_bind, found_bind]
      exact congrArg _ (List.append_nil _)
    unfold HoldsArguments
    rw [taken, found]
    rcases closeArguments_taken (values' parser).2 with none | ⟨closing, closes, last⟩
    · rw [none]
      exact ⟨values.held trivial, reported.append (.of_none (List.forall_mem_nil _))⟩
    · rw [last]
      refine ⟨values.held ⟨by simp [endsDeclaration, closes], ?_⟩, reported.append ?_⟩
      · rw [closes]
        rfl
      · exact .of_none (List.forall_mem_singleton.2 (closes.trans_ne (by decide)))

end Values

section Conditions

open Keeps

variable {room : Nat}

theorem keeps_of_level {reading : Reading α} (level : reading.Keeps .level parser) :
    reading.Keeps .conditions parser :=
  ⟨.of_level level, .of_none fun token member =>
    kind_ne_of_going (fun _ _ => rfl) (level token member)⟩

theorem free_of_endsSupportsDeclaration (token : Token) (inert : isInert token = true) :
    endsSupportsDeclaration token = false := by
  unfold isInert at inert
  cases is : token.kind <;> simp_all [endsSupportsDeclaration, Token.isStructural]

/-- A word and the mark behind it, then what is read from there on. -/
theorem advance_advance_taken {following : Unit → Reading α}
    (notEnd : parser.current.kind ≠ .eof) (further : parser.next.kind ≠ .eof) :
    (advance >>= fun _ => advance >>= following).taken parser =
      parser.current :: parser.next :: (following ()).taken ((parser.skip 1).skip 1) := by
  have second : (parser.skip 1).current = parser.next := Parser.current_skip ..
  rw [taken_bind, taken_advance notEnd, taken_bind]
  change [parser.current] ++ (advance.taken (parser.skip 1) ++ _) = _
  rw [taken_advance (by rwa [second]), second]
  rfl

theorem advance_advance_found {following : Unit → Reading α} :
    (advance >>= fun _ => advance >>= following).found parser =
      (following ()).found ((parser.skip 1).skip 1) := by
  rw [found_bind, found_bind]
  rfl

theorem supportsValue_keeps (going : endsSupportsDeclaration parser.current = false) :
    (supportsValue room).Keeps (.values endsSupportsDeclaration) parser := by
  refine look (ite (fun important => ?_) fun _ => ?_)
  · have is := (importantFollows_iff.1 important).1
    exact returning (tokenValue_keeps going (by simp [is]))
  · exact separatedValue_keeps free_of_endsSupportsDeclaration (arguments_holds room) going
      (kind_ne_of_going (fun _ _ => rfl) going)

theorem supportsDeclaration_keeps (named : parser.current.kind = .ident)
    (free : parser.current.isSupportsWord = false) (marked : parser.next.kind = .colon) :
    (supportsDeclaration room).Keeps .conditions parser := by
  let after := (parser.skip 1).skip 1
  let values : Reading SupportsCondition := do
    let values ← collect endsSupportsDeclaration (supportsValue room)
    reportIf values.isEmpty .noValue
    return .declaration parser.current.literal values
  have keeps : values.Keeps (.values endsSupportsDeclaration) after :=
    (collect supportsValue_advances (fun _ => supportsValue_keeps) after).bind (reportIf.bind pure)
  have taken : (supportsDeclaration room).taken parser =
      parser.current :: parser.next :: values.taken after := by
    unfold supportsDeclaration
    rw [taken_current, advance_advance_taken (named.trans_ne nofun) (marked.trans_ne nofun)]
  have found : (supportsDeclaration room).found parser = values.found after := by
    unfold supportsDeclaration
    rw [found_current, advance_advance_found]
  obtain ⟨inner, reported⟩ := keeps
  unfold Keeps
  rw [taken, found]
  constructor
  · have whole := Confined.declaration named free marked inner .nil
    rwa [List.append_nil] at whole
  · exact (reported.cons (marked.trans_ne nofun)).cons (named.trans_ne nofun)

theorem supportsCall_keeps (named : parser.current.kind = .ident)
    (free : parser.current.isSupportsWord = false) (opens : parser.next.kind = .openParen) :
    (supportsCall room).Keeps .conditions parser := by
  let after := (parser.skip 1).skip 1
  obtain ⟨held, reported⟩ := arguments_holds room after
  have taken : (supportsCall room).taken parser =
      parser.current :: parser.next :: (arguments room).taken after := by
    unfold supportsCall
    rw [taken_current, advance_advance_taken (named.trans_ne nofun) (opens.trans_ne nofun),
      bind_pure_comp, taken_map]
  have found : (supportsCall room).found parser = (arguments room).found after := by
    unfold supportsCall
    rw [found_current, advance_advance_found, bind_pure_comp, found_map]
  unfold Keeps
  rw [taken, found]
  constructor
  · have whole := Confined.call named free opens held .nil
    rwa [List.append_nil] at whole
  · exact (reported.cons (opens.trans_ne nofun)).cons (named.trans_ne nofun)

theorem dropSupportsToken_keeps (plain : parser.current.isStructural = false) :
    dropSupportsToken.Keeps .conditions parser :=
  reporting (returning (keeps_of_level (forward plain)))

section Groups

variable {group : Reading (Option SupportsCondition)}
  (inner : ∀ parser : Parser, parser.current.kind = .openParen → group.Keeps .conditions parser)
include inner

theorem supportsNegation_keeps (plain : parser.current.isStructural = false) :
    (supportsNegation group).Keeps .conditions parser := by
  refine (keeps_of_level (forward plain)).bind ((keeps_of_level skipComments).bind ?_)
  refine look (ite (fun opens => ?_) fun _ => report.bind pure)
  exact returning (inner _ (currentIs_iff.1 opens))

theorem supportsName_keeps (named : parser.current.kind = .ident)
    (plain : parser.current.isStructural = false) :
    (supportsName room group parser.current).Keeps .conditions parser := by
  refine ite (fun _ => ?_) fun notJoining => ite (fun _ => ?_) fun notNegating => ?_
  · exact returning (returning (keeps_of_level (forward plain)))
  · exact returning (supportsNegation_keeps inner plain)
  have free : parser.current.isSupportsWord = false := by
    unfold Token.isSupportsWord
    rw [Bool.eq_false_iff.2 notJoining, Bool.eq_false_iff.2 notNegating]
    rfl
  refine look (ite (fun marked => ?_) fun _ => look (ite (fun opens => ?_) fun _ => ?_))
  · exact returning (supportsDeclaration_keeps named free (nextIs_iff.1 marked))
  · exact returning (supportsCall_keeps named free (nextIs_iff.1 opens))
  · exact dropSupportsToken_keeps plain

theorem supportsPart_keeps (plain : parser.current.isStructural = false) :
    (supportsPart room group).Keeps .conditions parser := by
  apply Keeps.current
  split
  next => exact returning (keeps_of_level (forward plain))
  next opens => exact returning (inner _ opens)
  next named => exact supportsName_keeps inner named plain
  next => exact dropSupportsToken_keeps plain

end Groups

theorem supportsSequence_keeps (terminator : Kind)
    (inner : ∀ parser : Parser, parser.current.kind = .openParen →
      (supportsGroup room).Keeps .conditions parser) :
    (supportsSequence room (supportsGroup room) terminator).Keeps .conditions parser := by
  refine collect (supportsPart_advances terminator) (fun parser going => ?_) parser
  exact supportsPart_keeps inner (Bool.or_eq_false_iff.1 going).2

theorem supportsGroup_keeps (opens : parser.current.kind = .openParen) :
    (supportsGroup room).Keeps .conditions parser := by
  have forward {parser : Parser} (opens : parser.current.kind = .openParen) :
      advance.Keeps .conditions parser :=
    keeps_of_level (forwardKind opens rfl)
  induction room generalizing parser with
  | zero => exact reporting ((forward opens).bind ((keeps_of_level skipGroup).bind pure))
  | succ room ih =>
    refine (forward opens).bind ((supportsSequence_keeps .closeParen fun _ => ih).bind ?_)
    exact reportIf.bind ((keeps_of_level (expect (ofKind rfl))).bind pure)

/-- A support condition goes up to its terminator or to a structural token. It takes no `}` and no
semicolon, and a `{` only with a problem, behind a parenthesis of a call or of a group among values
that is still open. -/
theorem supportsCondition_confined (room : Nat) (terminator : Kind) (parser : Parser) :
    Confined ((supportsCondition room terminator).taken parser) ∧
      (∀ token ∈ (supportsCondition room terminator).taken parser,
        token.kind ≠ .closeBrace ∧ token.kind ≠ .semicolon ∧
          (token.kind = .openBrace → Diagnostic.ofToken (.misplaced "declaration value") token ∈
            (supportsCondition room terminator).found parser)) ∧
      endsSupports terminator (supportsCondition room terminator parser).2.current = true := by
  obtain ⟨confined, reported⟩ : (supportsCondition room terminator).Keeps .conditions parser :=
    map (supportsSequence_keeps terminator fun _ => supportsGroup_keeps)
  refine ⟨confined, fun token member => ?_, ?_⟩
  · have going := confined.going token member
    refine ⟨?_, ?_, reported token member⟩
    · exact kind_ne_of_going (fun _ _ => rfl) going
    · exact kind_ne_of_going (fun _ _ => rfl) going
  · exact collect_stops (supportsPart_advances terminator) parser

/-- A call that is not closed takes the `{` of the block behind it. -/
theorem supportsCondition_takes_brace :
    ¬∀ room terminator parser, ∀ token ∈ (supportsCondition room terminator).taken parser,
      token.kind ≠ .openBrace ∧ token.kind ≠ .closeBrace ∧ token.kind ≠ .semicolon := by
  intro all
  have tokens : tokenize (utf8 "f(a { b: c }") =
      [⟨.ident, utf8 "f", ⟨1, 1, 0⟩⟩, ⟨.openParen, utf8 "(", ⟨1, 2, 1⟩⟩,
        ⟨.ident, utf8 "a", ⟨1, 3, 2⟩⟩, ⟨.openBrace, utf8 "\x7b", ⟨1, 5, 4⟩⟩,
        ⟨.ident, utf8 "b", ⟨1, 7, 6⟩⟩, ⟨.colon, utf8 ":", ⟨1, 8, 7⟩⟩,
        ⟨.ident, utf8 "c", ⟨1, 10, 9⟩⟩, ⟨.closeBrace, utf8 "\x7d", ⟨1, 12, 11⟩⟩,
        .endOfInput ⟨1, 13, 12⟩] := by
    decide +kernel
  have member : ⟨.openBrace, utf8 "\x7b", ⟨1, 5, 4⟩⟩ ∈
      (supportsCondition nestingLimit .openBrace).taken
        (Parser.ofTokens .standard (tokenize (utf8 "f(a { b: c }"))) := by
    rw [tokens]
    decide +kernel
  exact (all nestingLimit .openBrace _ _ member).1 rfl

end Conditions

end Grammar

end CssSyntax

import CssSyntax.Proofs.Grammar.Progress
import CssSyntax.Proofs.Nesting.Track

/-! Values and conditions keep step with a skip that counts parentheses: what is read of them
without a problem closes the groups that it opens. -/

namespace CssSyntax

open Reading CssSyntax.Span

/-- True of a kind that no skip stops at or counts. -/
def Kind.isPlain (kind : Kind) : Bool :=
  kind != .openParen && kind != .closeParen && !Token.isStructural ⟨kind, [], .start⟩

theorem Skipper.steps {skipper : GroupSkipper} {opened : Nat} {token : Token}
    (plain : token.kind.isPlain = true) :
    Steps (skipper.level (opened + 1)) (skipper.level (opened + 1)) token := by
  obtain ⟨kind, literal, start⟩ := token
  simp only [Kind.isPlain, Bool.and_eq_true, bne_iff_ne, Bool.not_eq_true'] at plain
  exact skipper.plain opened _ plain.1.1 plain.1.2 plain.2

theorem Kind.isPlain_of_eq {token : Token} {kind : Kind} (is : token.kind = kind)
    (plain : kind.isPlain = true) : token.kind.isPlain = true :=
  is ▸ plain

namespace Grammar

variable {skipper : GroupSkipper} {opened : Nat} {parser : Parser} {room : Nat}

/-- A single token that no skip counts. -/
theorem advance_stays {kind : Kind} (is : parser.current.kind = kind)
    (plain : kind.isPlain = true) : advance.Stays skipper opened parser :=
  Tracks.advance (Skipper.steps (Kind.isPlain_of_eq is plain))

theorem advancing_stays {α : Type} {value : α} {kind : Kind} (is : parser.current.kind = kind)
    (plain : kind.isPlain = true) :
    (do
      Reading.advance
      return value : Reading α).Stays skipper opened parser :=
  Tracks.bind (advance_stays is plain) Tracks.pure

theorem skipComments_stays : skipComments.Stays skipper opened parser := by
  apply Tracks.skip
  symm
  apply past_drop_before
  intro token going
  have comment : token.kind = .comment := by simpa using going
  exact Skipper.steps (Kind.isPlain_of_eq comment rfl)

section Values

theorem numberWithUnit_stays {number : Token} (is : parser.current.kind = .number) :
    (numberWithUnit number).Stays skipper opened parser := by
  apply Tracks.look
  apply Tracks.ite
  · intro follows
    have unit : parser.next.kind.isPlain = true := by
      rcases Bool.or_eq_true_iff.1 (Bool.and_eq_true_iff.1 follows).2 with percent | name
      · exact Kind.isPlain_of_eq (nextIs_iff.1 percent) rfl
      · exact Kind.isPlain_of_eq (nextIs_iff.1 (Bool.and_eq_true_iff.1 name).1) rfl
    apply Tracks.bind (advance_stays is rfl)
    apply Tracks.current
    apply Tracks.advancing
    rw [current_advance]
    exact Skipper.steps unit
  · intro _
    exact advancing_stays is rfl

theorem past_drop_marks (tokens : List Token) :
    past (skipper.level (opened + 1)) (tokens.drop (Span.marks tokens)) =
      past (skipper.level (opened + 1)) tokens := by
  apply past_drop_before
  intro token going
  have mark : (Parser.isSign token || token.kind == .dot) = true := by
    simpa only [Bool.not_eq_false'] using going
  rcases Bool.or_eq_true_iff.1 mark with sign | dot
  · rcases Bool.or_eq_true_iff.1 sign with minus | plus
    · exact Skipper.steps (Kind.isPlain_of_eq (eq_of_beq minus) rfl)
    · exact Skipper.steps (Kind.isPlain_of_eq (eq_of_beq plus) rfl)
  · exact Skipper.steps (Kind.isPlain_of_eq (eq_of_beq dot) rfl)

theorem numeric_stays : numeric.Stays skipper opened parser := by
  apply Tracks.take (past_drop_marks _).symm
  apply Tracks.current
  apply Tracks.ite
  · intro number
    exact Tracks.returning (numberWithUnit_stays number)
  · intro _
    exact Tracks.pure

theorem past_drop_glued (stop : Nat) (tokens : List Token) :
    past (skipper.level (opened + 1)) (tokens.drop (Span.glued stop tokens)) =
      past (skipper.level (opened + 1)) tokens := by
  fun_induction Span.glued stop tokens with
  | case1 => rfl
  | case2 stop token rest glues ih =>
    have plain : token.kind.isPlain = true := by
      rcases glues.2 with name | number
      · exact Kind.isPlain_of_eq name rfl
      · exact Kind.isPlain_of_eq number rfl
    rw [List.drop_succ_cons, ih, past_cons (Skipper.steps plain)]
  | case3 => rfl

theorem hashValue_stays (is : parser.current.kind = .hash) :
    hashValue.Stays skipper opened parser := by
  apply Tracks.current
  apply Tracks.bind (advance_stays is rfl)
  exact Tracks.take (past_drop_glued _ _).symm Tracks.pure

theorem tokenValue_stays {meaning : Bytes → Value}
    (steps : Steps (skipper.level (opened + 1)) (skipper.level (opened + 1)) parser.current) :
    (tokenValue meaning).Stays skipper opened parser :=
  Tracks.current (Tracks.advancing steps)

theorem markValue_stays {kind : Kind} (is : parser.current.kind = kind)
    (plain : kind.isPlain = true) : markValue.Stays skipper opened parser := by
  apply Tracks.look
  apply Tracks.ite
  · intro _
    exact Tracks.returning numeric_stays
  · intro _
    exact tokenValue_stays (Skipper.steps (Kind.isPlain_of_eq is plain))

section Calls

variable {arguments : Reading (List Value)}
variable (inner : ∀ opened parser, arguments.Ends skipper opened parser)
include inner

/-- A call from its name on, if a parenthesis follows the name. -/
theorem callWith_stays (is : parser.current.kind = .ident) (follows : parser.nextIs .openParen) :
    (callWith arguments).Stays skipper opened parser := by
  apply Tracks.current
  apply Tracks.bind (advance_stays is rfl)
  apply Tracks.bind (Tracks.advance (skipper.opening opened _ _))
  · exact Tracks.returning (inner (opened + 1) _)
  · rw [current_advance]
    exact nextIs_iff.1 follows

theorem groupValue_stays (is : parser.current.kind = .openParen) :
    (groupValue arguments).Stays skipper opened parser := by
  apply Tracks.bind (Tracks.advance (skipper.opening opened _ is))
  exact Tracks.returning (inner (opened + 1) _)

theorem nameValue_stays (is : parser.current.kind = .ident) :
    (nameValue arguments).Stays skipper opened parser := by
  apply Tracks.nextIs
  apply Tracks.ite
  · intro follows
    exact callWith_stays inner is follows
  · intro _
    exact tokenValue_stays (Skipper.steps (Kind.isPlain_of_eq is rfl))

/-- A `)` may be a value of its own only where the skip does not count it. -/
theorem valueWith_stays (going : endsDeclaration parser.current = false)
    (lone : parser.current.kind = .closeParen →
      Steps (skipper.level (opened + 1)) (skipper.level (opened + 1)) parser.current) :
    (valueWith arguments).Stays skipper opened parser := by
  apply Tracks.current
  have notClosing : parser.current.kind ≠ .closeBrace :=
    kind_ne_of_going (fun _ _ => rfl) going
  have notSemicolon : parser.current.kind ≠ .semicolon :=
    kind_ne_of_going (fun _ _ => rfl) going
  generalize here : parser.current.kind = kind
  cases kind with
  | number => exact Tracks.map (Tracks.map numeric_stays)
  | minus | plus | dot => exact Tracks.map (markValue_stays here rfl)
  | ident => exact Tracks.map (nameValue_stays inner here)
  | uri | string =>
    exact Tracks.map (tokenValue_stays (Skipper.steps (Kind.isPlain_of_eq here rfl)))
  | openParen => exact Tracks.map (groupValue_stays inner here)
  | hash => exact Tracks.map (hashValue_stays here)
  | illegal | openBrace | exclamation => exact Tracks.report
  | eof => exact Tracks.pure
  | closeParen => exact Tracks.map (tokenValue_stays (lone here))
  | closeBrace => exact absurd here notClosing
  | semicolon => exact absurd here notSemicolon
  | _ => exact Tracks.map (tokenValue_stays (Skipper.steps (Kind.isPlain_of_eq here rfl)))

end Calls

theorem separatedValue_stays {value : Reading (Option Value)}
    (inner : value.Stays skipper opened parser) :
    (separatedValue value).Stays skipper opened parser := by
  apply Tracks.current
  apply Tracks.ite
  · intro separates
    rcases separates with comma | comment
    · exact advancing_stays comma rfl
    · exact advancing_stays comment rfl
  · intro _
    exact Tracks.returning inner

theorem closeArguments_ends : closeArguments.Ends skipper opened parser := by
  apply Tracks.current
  apply Tracks.ite
  · intro closes
    exact Tracks.advance (skipper.closing opened _ closes)
  · intro _
    exact Tracks.ite (fun _ => Tracks.reportLast) fun _ => Tracks.reportLast

theorem endsDeclaration_of_endsArguments {token : Token} (going : endsArguments token = false) :
    endsDeclaration token = false ∧ token.kind ≠ .closeParen := by
  simp_all [endsArguments, endsDeclaration]

/-- The arguments of a call close its parenthesis. -/
theorem arguments_ends (room opened : Nat) (parser : Parser) :
    (arguments room).Ends skipper opened parser := by
  -- A call among the arguments has less room, and one more group is open around what is in it.
  induction room generalizing opened parser with
  | zero => exact Tracks.report
  | succ room ih =>
    have values (parser : Parser) (going : endsArguments parser.current = false) :
        (separatedValue (valueWith (arguments room))).Stays skipper opened parser := by
      obtain ⟨inside, notClosing⟩ := endsDeclaration_of_endsArguments going
      exact separatedValue_stays
        (valueWith_stays ih inside fun closes => absurd closes notClosing)
    apply Tracks.bind (Tracks.collect values parser)
    exact Tracks.bind closeArguments_ends Tracks.pure

theorem value_stays (going : endsDeclaration parser.current = false)
    (lone : parser.current.kind = .closeParen →
      Steps (skipper.level (opened + 1)) (skipper.level (opened + 1)) parser.current) :
    (value room).Stays skipper opened parser :=
  valueWith_stays (arguments_ends room) going lone

end Values

section Supports

theorem supportsValue_stays (going : endsSupportsDeclaration parser.current = false) :
    (supportsValue room).Stays skipper opened parser := by
  have notClosing : parser.current.kind ≠ .closeParen := kind_ne_of_going (fun _ _ => rfl) going
  have inside : endsDeclaration parser.current = false := by
    simp_all [endsSupportsDeclaration, endsDeclaration, Token.isStructural]
  apply Tracks.look
  apply Tracks.ite
  · intro important
    have mark := currentIs_iff.1 (Bool.and_eq_true_iff.1 important).1
    exact Tracks.returning (tokenValue_stays (Skipper.steps (Kind.isPlain_of_eq mark rfl)))
  · intro _
    exact separatedValue_stays (value_stays inside fun closes => absurd closes notClosing)

theorem supportsDeclaration_stays (is : parser.current.kind = .ident)
    (follows : parser.nextIs .colon) :
    (supportsDeclaration room).Stays skipper opened parser := by
  apply Tracks.current
  apply Tracks.bind (advance_stays is rfl)
  apply Tracks.bind (advance_stays ((congrArg Token.kind (current_advance _)).trans
    (nextIs_iff.1 follows)) rfl)
  apply Tracks.bind (Tracks.collect (fun _ going => supportsValue_stays going) _)
  exact Tracks.reportIf Tracks.pure

theorem supportsCall_stays (is : parser.current.kind = .ident)
    (follows : parser.nextIs .openParen) : (supportsCall room).Stays skipper opened parser := by
  apply Tracks.current
  apply Tracks.bind (advance_stays is rfl)
  apply Tracks.bind (Tracks.advance (skipper.opening opened _ ((congrArg Token.kind
    (current_advance _)).trans (nextIs_iff.1 follows))))
  exact Tracks.returning (arguments_ends room (opened + 1) _)

section Groups

variable {group : Reading (Option SupportsCondition)}
variable (inner : ∀ parser, parser.current.kind = .openParen → group.Stays skipper opened parser)
include inner

theorem supportsNegation_stays (is : parser.current.kind = .ident) :
    (supportsNegation group).Stays skipper opened parser := by
  apply Tracks.bind (advance_stays is rfl)
  apply Tracks.bind skipComments_stays
  apply Tracks.currentIs
  apply Tracks.ite
  · intro opens
    exact Tracks.returning (inner _ (currentIs_iff.1 opens))
  · intro _
    exact Tracks.report

theorem supportsName_stays (is : parser.current.kind = .ident) (token : Token) :
    (supportsName room group token).Stays skipper opened parser := by
  apply Tracks.ite
  · intro _
    exact Tracks.returning (advancing_stays is rfl)
  intro _
  apply Tracks.ite
  · intro _
    exact Tracks.returning (supportsNegation_stays inner is)
  intro _
  apply Tracks.nextIs
  apply Tracks.ite
  · intro follows
    exact Tracks.returning (supportsDeclaration_stays is follows)
  intro _
  apply Tracks.nextIs
  apply Tracks.ite
  · intro follows
    exact Tracks.returning (supportsCall_stays is follows)
  · intro _
    exact Tracks.report

theorem supportsPart_stays : (supportsPart room group).Stays skipper opened parser := by
  apply Tracks.current
  generalize here : parser.current.kind = kind
  cases kind with
  | comment => exact advancing_stays here rfl
  | openParen => exact Tracks.returning (inner parser here)
  | ident => exact supportsName_stays inner here _
  | _ => exact Tracks.report

theorem supportsSequence_stays {terminator : Kind} :
    (supportsSequence room group terminator).Stays skipper opened parser :=
  Tracks.collect (fun _ _ => supportsPart_stays inner) parser

end Groups

/-- A group of conditions from its `(` on closes that parenthesis. -/
theorem supportsGroup_tracks {near : List Token → Nat}
    (opens : Steps near (skipper.level (opened + 1)) parser.current) :
    (supportsGroup room).Tracks near (skipper.level opened) parser := by
  -- The skip may start at the group, or may have started before a group around it. So the skip is
  -- only asked to count the parenthesis.
  induction room generalizing near opened parser with
  | zero => exact Tracks.report
  | succ room ih =>
    have groups (parser : Parser) (is : parser.current.kind = .openParen) :
        (supportsGroup room).Stays skipper opened parser :=
      ih (skipper.opening opened _ is)
    apply Tracks.bind (Tracks.advance opens)
    apply Tracks.bind (supportsSequence_stays groups)
    apply Tracks.reportIf
    apply Tracks.expect
    intro closes
    exact Tracks.advancing (skipper.closing opened _ closes)

theorem supportsCondition_stays {terminator : Kind} :
    (supportsCondition room terminator).Stays skipper opened parser :=
  Tracks.map (supportsSequence_stays fun _ is =>
    supportsGroup_tracks (skipper.opening opened _ is))

end Supports

section Containers

/-- Where a stretch of text ends either no group is open in it, or there is a token that the skip
does not pass either. -/
theorem past_drop_inside (skipper : GroupSkipper) (opened : Nat) (stop : Token → Bool)
    (inner : Nat) (tokens : List Token) :
    past (skipper.level (opened + 1)) (tokens.drop (Span.inside stop inner tokens)) =
      past (skipper.level (opened + inner + 1)) tokens := by
  -- The groups that the stretch opens itself are open to the skip too, on top of the others.
  induction tokens generalizing inner with
  | nil => rw [List.drop_nil, past_nil, past_nil]
  | cons token rest ih =>
    by_cases structural : token.isStructural = true
    · have none : Span.inside stop inner (token :: rest) = 0 := if_pos structural
      unfold past
      rw [none, List.drop_zero, skipper.stopped opened (opened + inner) token rest structural]
    by_cases stops : inner = 0 ∧ stop token = true
    · obtain ⟨rfl, stops⟩ := stops
      have none : Span.inside stop 0 (token :: rest) = 0 := by simp [Span.inside, stops]
      rw [none]
      rfl
    by_cases opens : token.kind = .openParen
    · have more : Span.inside stop inner (token :: rest) =
          Span.inside stop (inner + 1) rest + 1 := by
        simp [Span.inside, structural, stops, opens]
      rw [more, List.drop_succ_cons, ih, past_cons (skipper.opening (opened + inner) token opens)]
      rfl
    by_cases closes : token.kind = .closeParen
    · cases inner with
      | zero =>
        have none : Span.inside stop 0 (token :: rest) = 0 := by simp [Span.inside, closes]
        rw [none]
        rfl
      | succ outer =>
        have more : Span.inside stop (outer + 1) (token :: rest) =
            Span.inside stop outer rest + 1 := by
          simp [Span.inside, structural, closes]
        rw [more, List.drop_succ_cons, ih]
        exact (past_cons (skipper.closing (opened + outer + 1) token closes) rest).symm
    · have more : Span.inside stop inner (token :: rest) = Span.inside stop inner rest + 1 := by
        simp [Span.inside, structural, stops]
      have plain := skipper.plain (opened + inner) token opens closes
        (Bool.eq_false_iff.2 structural)
      rw [more, List.drop_succ_cons, ih, past_cons plain]

theorem featureValue_stays {stop : Token → Bool} :
    (featureValue stop).Stays skipper opened parser :=
  Tracks.take (past_drop_inside skipper opened stop 0 _).symm Tracks.pure

theorem containerFeatureValue_stays : containerFeatureValue.Stays skipper opened parser := by
  apply Tracks.accept
  · intro colon
    apply Tracks.bind (advance_stays colon rfl)
    exact Tracks.returning featureValue_stays
  · apply Tracks.current
    apply Tracks.ite
    · intro _
      exact Tracks.pure
    · intro _
      exact Tracks.returning featureValue_stays

theorem containerName_stays (is : parser.current.kind = .ident) (token : Token) :
    (containerName token).Stays skipper opened parser := by
  apply Tracks.ite
  · intro _
    exact advancing_stays is rfl
  · intro _
    apply Tracks.bind (advance_stays is rfl)
    apply Tracks.bind skipComments_stays
    exact Tracks.returning containerFeatureValue_stays

theorem containerPart_stays {group : Reading ContainerCondition}
    (inner : ∀ parser, parser.current.kind = .openParen →
      group.Stays skipper opened parser) :
    (containerPart group).Stays skipper opened parser := by
  have token : (containerToken group).Stays skipper opened parser := by
    apply Tracks.current
    generalize here : parser.current.kind = kind
    cases kind with
    | ident => exact containerName_stays here _
    | openParen => exact Tracks.map (inner parser here)
    | _ => exact Tracks.report
  apply Tracks.bind token
  exact Tracks.bind skipComments_stays Tracks.pure

/-- A condition from its `(` on closes that parenthesis. -/
theorem containerCondition_tracks {near : List Token → Nat}
    (opens : Steps near (skipper.level (opened + 1)) parser.current) :
    (containerCondition room).Tracks near (skipper.level opened) parser := by
  induction room generalizing near opened parser with
  | zero => exact Tracks.report
  | succ room ih =>
    have groups (parser : Parser) (is : parser.current.kind = .openParen) :
        (containerCondition room).Stays skipper opened parser :=
      ih (skipper.opening opened _ is)
    apply Tracks.bind (Tracks.advance opens)
    apply Tracks.bind skipComments_stays
    apply Tracks.bind (Tracks.collect (fun _ _ => containerPart_stays groups) _)
    apply Tracks.expect
    intro closes
    exact Tracks.advancing (skipper.closing opened _ closes)

end Containers

section MediaQueries

theorem mediaFeatureValue_stays : mediaFeatureValue.Stays skipper opened parser := by
  apply Tracks.accept
  · intro colon
    apply Tracks.bind (advance_stays colon rfl)
    apply Tracks.bind featureValue_stays
    exact Tracks.reportIf Tracks.pure
  · apply Tracks.currentIs
    apply Tracks.ite
    · intro _
      exact Tracks.pure
    · intro _
      exact Tracks.returning featureValue_stays

theorem closeFeature_ends : closeFeature.Ends skipper opened parser := by
  apply Tracks.expect
  intro closes
  exact Tracks.advancing (skipper.closing opened _ closes)

theorem mediaFeature_stays (is : parser.current.kind = .openParen) :
    mediaFeature.Stays skipper opened parser := by
  apply Tracks.bind (Tracks.advance (skipper.opening opened _ is))
  apply Tracks.bind skipComments_stays
  apply Tracks.current
  apply Tracks.ite
  · intro name
    apply Tracks.bind (advance_stays name rfl)
    apply Tracks.bind skipComments_stays
    apply Tracks.bind mediaFeatureValue_stays
    exact Tracks.bind closeFeature_ends Tracks.pure
  · intro _
    exact Tracks.report

theorem conjuncts_stays {α : Type} {condition : Reading (List α)}
    (inner : ∀ parser, parser.current.kind = .openParen →
      condition.Stays skipper opened parser) :
    (conjuncts condition).Stays skipper opened parser := by
  apply Tracks.bind skipComments_stays
  apply Tracks.collect
  intro parser going
  apply Tracks.currentIs
  apply Tracks.ite
  · intro opens
    apply Tracks.bind (inner parser (currentIs_iff.1 opens))
    exact Tracks.bind skipComments_stays Tracks.pure
  · intro other
    have word : parser.current.isWord Word.andWord = true :=
      (conjunct_cases going).resolve_left fun opens => other (currentIs_iff.2 opens)
    have conjunction : conjunction.Stays skipper opened parser := by
      apply Tracks.bind (advance_stays (kind_of_isWord word) rfl)
      apply Tracks.bind skipComments_stays
      apply Tracks.currentIs
      exact Tracks.bind (Tracks.reportIf Tracks.pure) Tracks.pure
    exact Tracks.bind conjunction Tracks.pure

theorem acceptWord_stays {word : Bytes} : (acceptWord word).Stays skipper opened parser := by
  apply Tracks.current
  apply Tracks.ite
  · intro spells
    exact advancing_stays (kind_of_isWord spells) rfl
  · intro _
    exact Tracks.pure

theorem mediaModifier_stays : mediaModifier.Stays skipper opened parser := by
  apply Tracks.bind acceptWord_stays
  apply Tracks.ite
  · intro _
    exact Tracks.pure
  · intro _
    apply Tracks.bind acceptWord_stays
    exact Tracks.ite (fun _ => Tracks.pure) fun _ => Tracks.pure

theorem mediaType_stays : mediaType.Stays skipper opened parser := by
  apply Tracks.current
  apply Tracks.ite
  · intro name
    exact advancing_stays name.1 rfl
  · intro _
    exact Tracks.pure

theorem dropRest_stays {stop : Token → Bool} {place : String} :
    (dropRest stop place).Stays skipper opened parser := by
  apply Tracks.current
  apply Tracks.ite
  · intro _
    exact Tracks.pure
  · intro _
    exact Tracks.report

theorem mediaExpression_stays : mediaExpression.Stays skipper opened parser := by
  apply Tracks.bind skipComments_stays
  apply Tracks.bind mediaModifier_stays
  apply Tracks.bind skipComments_stays
  apply Tracks.bind mediaType_stays
  apply Tracks.bind (conjuncts_stays fun _ is => Tracks.map (mediaFeature_stays is))
  exact Tracks.bind dropRest_stays Tracks.pure

theorem mediaQuery_stays : mediaQuery.Stays skipper opened parser := by
  have further (parser : Parser) (going : (parser.current.kind != .comma) = false) :
      nextExpression.Stays skipper opened parser := by
    apply Tracks.bind (advance_stays (bne_eq_false_iff_eq.1 going) rfl)
    apply Tracks.bind skipComments_stays
    exact Tracks.returning mediaExpression_stays
  apply Tracks.bind skipComments_stays
  apply Tracks.current
  apply Tracks.ite
  · intro _
    exact Tracks.pure
  · intro _
    apply Tracks.bind mediaExpression_stays
    exact Tracks.returning (Tracks.collect further _)

theorem containerLabel_stays : containerLabel.Stays skipper opened parser := by
  apply Tracks.current
  apply Tracks.look
  apply Tracks.ite
  · intro named
    have name : parser.current.kind = .ident := by
      simp_all [isContainerName]
    exact advancing_stays name rfl
  · intro _
    exact Tracks.pure

theorem containerQuery_stays : (containerQuery room).Stays skipper opened parser := by
  apply Tracks.bind (conjuncts_stays fun _ is =>
    Tracks.returning (containerCondition_tracks (skipper.opening opened _ is)))
  exact Tracks.bind dropRest_stays Tracks.pure

end MediaQueries

section Statements

/-- What starts a url is a string, a url or a name. -/
theorem kind_of_startsUrl (starts : startsUrl parser = true) :
    endsDeclaration parser.current = false ∧ parser.current.kind ≠ .closeParen := by
  unfold startsUrl Token.isQuotedOrUri Token.isWord at starts
  unfold endsDeclaration
  generalize parser.current.kind = kind at starts ⊢
  cases kind <;> simp_all

theorem url_stays : (url room).Stays skipper opened parser := by
  apply Tracks.bind skipComments_stays
  apply Tracks.look
  apply Tracks.ite
  · intro starts
    obtain ⟨going, notClosing⟩ := kind_of_startsUrl starts
    exact value_stays going fun closes => absurd closes notClosing
  · intro _
    exact Tracks.pure

theorem layerClause_stays (is : parser.current.kind = .ident) :
    (layerClause room).Stays skipper opened parser := by
  apply Tracks.nextIs
  apply Tracks.ite
  · intro follows
    exact callWith_stays (arguments_ends room) is follows
  · intro _
    exact tokenValue_stays (Skipper.steps (Kind.isPlain_of_eq is rfl))

theorem supportsClause_stays (is : parser.current.kind = .ident)
    (follows : parser.nextIs .openParen) :
    (supportsClause room).Stays skipper opened parser := by
  apply Tracks.bind (advance_stays is rfl)
  apply Tracks.bind (Tracks.advance (skipper.opening opened _ ((congrArg Token.kind
    (current_advance _)).trans (nextIs_iff.1 follows))))
  apply Tracks.bind supportsCondition_stays
  apply Tracks.expect
  intro closes
  exact Tracks.advancing (skipper.closing (opened + 1) _ closes)

theorem keepFirst_stays {α : Type} (kept : Option α) (clause : α) (token : Token) :
    (keepFirst kept clause token).Stays skipper opened parser := by
  cases kept with
  | none => exact Tracks.pure
  | some first => exact Tracks.reportAt

theorem importClause_stays (clauses : ImportClauses) :
    (importClause room clauses).Stays skipper opened parser := by
  apply Tracks.current
  apply Tracks.ite
  · intro spells
    apply Tracks.bind (layerClause_stays (kind_of_isWord spells))
    exact Tracks.returning (keepFirst_stays _ _ _)
  intro _
  apply Tracks.nextIs
  apply Tracks.ite
  · intro clause
    obtain ⟨spells, follows⟩ := Bool.and_eq_true_iff.1 clause
    apply Tracks.bind (supportsClause_stays (kind_of_isWord spells) follows)
    exact Tracks.returning (keepFirst_stays _ _ _)
  intro _
  apply Tracks.ite
  · intro _
    exact Tracks.returning mediaQuery_stays
  · intro _
    exact Tracks.report

theorem separatedClause_stays (clauses : ImportClauses) :
    (separatedClause room clauses).Stays skipper opened parser := by
  apply Tracks.bind (importClause_stays clauses)
  exact Tracks.bind skipComments_stays Tracks.pure

theorem namespaceLabel_stays : namespaceLabel.Stays skipper opened parser := by
  apply Tracks.current
  apply Tracks.look
  apply Tracks.ite
  · intro label
    have name : parser.current.kind = .ident := by simpa using (Bool.and_eq_true_iff.1 label).1
    exact advancing_stays name rfl
  · intro _
    exact Tracks.pure

end Statements

end Grammar

end CssSyntax

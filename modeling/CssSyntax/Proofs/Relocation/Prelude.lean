import CssSyntax.Proofs.Relocation.Link

/-! Values, declarations and conditions read from relocated tokens. -/

namespace CssSyntax.Grammar

open Reading Relocation Links

variable {relocation : Relocation} {parser : Parser} {room : Nat}

section Values

theorem isSign_plain {token : Token} (sign : Parser.isSign token = true) : token.seals = false := by
  rcases Bool.or_eq_true_iff.1 sign with minus | plus
  · exact Token.seals_of_kind (eq_of_beq minus) rfl
  · exact Token.seals_of_kind (eq_of_beq plus) rfl

/-- A sign or a point seals nothing, so the look goes on past them. -/
theorem startsNumeric_eq (keeps : relocation.Keeps parser.ahead)
    (covers : relocation.Covers parser) :
    (relocation.parser parser).startsNumeric = parser.startsNumeric := by
  have digits (signs : Nat) (signed : Bool)
      (plain : ∀ before < signs, (parser.nth before).seals = false) :
      (if ((relocation.parser parser).nth signs).kind == .dot then
        (relocation.parser parser).isAdjacent (signs + 1) &&
          ((relocation.parser parser).nth (signs + 1)).kind == .number
      else signed && ((relocation.parser parser).nth signs).kind == .number) =
      (if (parser.nth signs).kind == .dot then
        parser.isAdjacent (signs + 1) && (parser.nth (signs + 1)).kind == .number
      else signed && (parser.nth signs).kind == .number) := by
    rw [nth_eq covers plain, token_kind]
    split
    next dot =>
      have further : ∀ before < signs + 1, (parser.nth before).seals = false := by
        intro before early
        rcases Nat.lt_succ_iff_lt_or_eq.1 early with earlier | rfl
        · exact plain before earlier
        · exact Token.seals_of_kind (eq_of_beq dot) rfl
      rw [isAdjacent_eq keeps covers further, nth_eq covers further, token_kind]
    next => rfl
  unfold Parser.startsNumeric
  rw [current_eq covers]
  by_cases sign : Parser.isSign parser.current = true
  · have first : ∀ before < 1, (parser.nth before).seals = false := by
      intro before early
      obtain rfl := Nat.lt_one_iff.1 early
      exact isSign_plain sign
    have moved : Parser.isSign (relocation.token parser.current) = true := sign
    simp only [sign, moved, if_true, isAdjacent_eq keeps covers first, digits 1 _ first]
  · have unsigned : Parser.isSign parser.current = false := Bool.eq_false_iff.2 sign
    have moved : Parser.isSign (relocation.token parser.current) = false := unsigned
    have none : ∀ before < 0, (parser.nth before).seals = false :=
      fun before early => absurd early (Nat.not_lt_zero before)
    have same := digits 0 false none
    simp only [unsigned, moved, Bool.false_eq_true, if_false, Nat.zero_ne_one, decide_false,
      Bool.false_and] at same ⊢
    exact same

theorem unitFollows_eq (keeps : relocation.Keeps parser.ahead)
    (covers : relocation.Covers parser) (plain : parser.current.seals = false) :
    (relocation.parser parser).unitFollows = parser.unitFollows := by
  have first : ∀ before < 1, (parser.nth before).seals = false := by
    intro before early
    obtain rfl := Nat.lt_one_iff.1 early
    exact plain
  unfold Parser.unitFollows
  rw [isAdjacent_eq keeps covers first, nextIs_eq covers plain, nextIs_eq covers plain,
    next_eq covers plain]
  rfl

theorem numberWithUnit_carries {number : Token} (is : parser.current.kind = .number) :
    relocation.Carries (numberWithUnit number) parser := by
  refine look (fun keeps covers => unitFollows_eq keeps covers (Token.seals_of_kind is rfl))
    (ite (fun _ => ?_) fun _ => bind advance pure)
  exact bind advance (current rfl (bind advance pure))

theorem numeric_carries : relocation.Carries numeric parser := by
  refine take (Span.before_settles _)
    (fun _ => Span.before_map relocation.token (fun _ => rfl) _) fun _ => ?_
  rw [literals_map]
  refine current rfl (ite (fun is => ?_) fun _ => pure)
  exact returning (numberWithUnit_carries is)

theorem hashValue_carries : relocation.Carries hashValue parser := by
  intro keeps covers
  refine (currentToken (bind advance (take (Span.glued_settles _) ?_ fun _ => ?_)) :
    relocation.Carries hashValue parser) keeps covers
  · intro _
    change Span.glued _ ((parser.ahead.drop 1).map relocation.token) =
      Span.glued _ (parser.ahead.drop 1)
    cases split : parser.ahead with
    | nil => rfl
    | cons hash rest =>
      have here : parser.current = hash := by simp [Parser.current, Parser.nth, split]
      rw [here]
      exact glued_map (split ▸ keeps)
  · rw [literals_map]
    exact pure

theorem tokenValue_carries {meaning : Bytes → Value} :
    relocation.Carries (tokenValue meaning) parser :=
  current rfl (bind advance pure)

theorem markValue_carries : relocation.Carries markValue parser :=
  look startsNumeric_eq (ite (fun _ => returning numeric_carries) fun _ => tokenValue_carries)

theorem droppedValue_carries : relocation.Carries droppedValue parser :=
  bind report (bind advance pure)

section Calls

variable {arguments : Reading (List Value)}
variable (inner : ∀ parser, relocation.Carries arguments parser)
include inner

theorem callWith_carries : relocation.Carries (callWith arguments) parser :=
  current rfl (bind advance (bind advance (returning (inner _))))

theorem groupValue_carries : relocation.Carries (groupValue arguments) parser :=
  bind advance (returning (inner _))

theorem nameValue_carries (is : parser.current.kind = .ident) :
    relocation.Carries (nameValue arguments) parser :=
  nextIs (Token.seals_of_kind is rfl)
    (ite (fun _ => callWith_carries inner) fun _ => tokenValue_carries)

theorem valueWith_carries : relocation.Carries (valueWith arguments) parser := by
  refine current rfl ?_
  split
  next => exact map (map numeric_carries)
  next => exact map markValue_carries
  next => exact map markValue_carries
  next => exact map markValue_carries
  next is => exact map (nameValue_carries inner is)
  next => exact map tokenValue_carries
  next => exact map tokenValue_carries
  next => exact map (groupValue_carries inner)
  next => exact map hashValue_carries
  next => exact droppedValue_carries
  next => exact droppedValue_carries
  next => exact droppedValue_carries
  next => exact pure
  next => exact map tokenValue_carries

end Calls

theorem separatedValue_carries {value : Reading (Option Value)}
    (inner : ∀ parser, relocation.Carries value parser) :
    relocation.Carries (separatedValue value) parser :=
  current rfl (ite (fun _ => bind advance pure) fun _ => returning (inner _))

theorem closeArguments_carries : relocation.Carries closeArguments parser :=
  current rfl (ite (fun _ => advance) fun _ => ite (fun _ => report) fun _ => report)

theorem argumentsWith_carries {value : Reading (Option Value)}
    (advances : Advances endsArguments (separatedValue value))
    (inner : ∀ parser, relocation.Carries value parser) :
    relocation.Carries (argumentsWith value) parser := by
  refine bind (collect advances rfl (fun _ _ => separatedValue_carries inner) _) ?_
  exact bind closeArguments_carries pure

theorem arguments_carries (room : Nat) (parser : Parser) :
    relocation.Carries (arguments room) parser := by
  induction room generalizing parser with
  | zero => exact bind report (bind skipGroup pure)
  | succ room ih =>
    exact argumentsWith_carries separatedValue_advances fun _ => valueWith_carries ih

theorem value_carries : relocation.Carries (value room) parser :=
  valueWith_carries (arguments_carries room)

theorem call_carries : relocation.Carries (call room) parser :=
  callWith_carries (arguments_carries room)

end Values

section Declarations

theorem importantFollows_eq (covers : relocation.Covers parser) :
    ((relocation.parser parser).currentIs .exclamation &&
      (relocation.parser parser).next.isWord Word.importantWord) =
        (parser.currentIs .exclamation && parser.next.isWord Word.importantWord) := by
  rw [currentIs_eq covers]
  by_cases mark : parser.currentIs .exclamation = true
  · rw [next_eq covers (Token.seals_of_kind (currentIs_iff.1 mark) rfl), token_isWord]
  · rw [Bool.eq_false_iff.2 mark, Bool.false_and, Bool.false_and]

theorem declarationPart_carries : relocation.Carries (declarationPart (value room)) parser := by
  refine look (fun _ => importantFollows_eq) (ite (fun _ => ?_) fun _ => ?_)
  · exact bind advance (bind advance pure)
  · exact returning (separatedValue_carries fun _ => value_carries)

theorem declarationBody_carries {key : Bytes} :
    relocation.Carries (declarationBody room key) parser := by
  refine bind (collect declarationPart_advances rfl (fun _ _ => declarationPart_carries) _) ?_
  exact ite (fun _ => bind report pure) fun _ => pure

theorem declaration_carries : relocation.Carries (declaration room) parser := by
  refine current rfl (ite (fun _ => ?_) fun _ => bind report (bind skipDeclaration pure))
  refine bind advance (bind expect (ite (fun _ => declarationBody_carries) fun _ => ?_))
  exact bind skipDeclaration pure

theorem blockDeclaration_carries : relocation.Carries (blockDeclaration room) parser := by
  refine current rfl (ite (fun _ => bind advance pure) fun _ => ite (fun _ => ?_) fun _ => ?_)
  · exact returning declaration_carries
  · exact bind report (bind skipDeclaration pure)

theorem closeBlock_carries {place : String} : relocation.Carries (closeBlock place) parser :=
  currentIs (ite (fun _ => advance) fun _ => report)

section Blocks

variable {α : Type} {place : String}

theorem blockBody_carries {member : Reading (List α)} (advances : Advances endsBlock member)
    (members : ∀ parser, endsBlock parser.current = false → relocation.Carries member parser) :
    relocation.Carries (blockBody place member) parser :=
  bind (collect advances rfl members _) (bind closeBlock_carries pure)

theorem blockWith_carries {body : Reading α} (inner : ∀ parser, relocation.Carries body parser) :
    relocation.Carries (blockWith place body) parser :=
  bind expect (ite (fun _ => returning (inner _)) fun _ => bind skipBlock pure)

end Blocks

end Declarations

section Conditions

theorem featureValue_carries {stop : Token → Bool}
    (blind : ∀ token, stop (relocation.token token) = stop token) :
    relocation.Carries (featureValue stop) parser := by
  refine take (Span.inside_settles stop 0) (fun _ => Span.inside_map token_kind blind 0 _)
    fun keeps => ?_
  rw [verbatim_map keeps]
  exact pure

theorem mediaFeatureValue_carries : relocation.Carries mediaFeatureValue parser := by
  have value {parser : Parser} : relocation.Carries (featureValue fun _ => false) parser :=
    featureValue_carries fun _ => rfl
  refine bind accept (ite (fun _ => bind value (bind reportIf pure)) fun _ => ?_)
  exact currentIs (ite (fun _ => pure) fun _ => returning value)

theorem closeFeature_carries : relocation.Carries closeFeature parser :=
  bind expect (ite (fun _ => pure) fun _ => skipGroup)

theorem mediaFeature_carries : relocation.Carries mediaFeature parser := by
  refine bind advance (bind skipComments ?_)
  refine current rfl (ite (fun _ => ?_) fun _ => ?_)
  · refine bind advance (bind skipComments ?_)
    refine bind mediaFeatureValue_carries ?_
    exact bind closeFeature_carries pure
  · exact bind report (bind skipGroup pure)

theorem conjunction_carries : relocation.Carries conjunction parser :=
  bind advance (bind skipComments (currentIs reportIf))

theorem conjuncts_carries {α : Type} {condition : Reading (List α)}
    (progress : ∀ parser : Parser, parser.current.kind = .openParen → condition.Progresses parser)
    (inner : ∀ parser, relocation.Carries condition parser) :
    relocation.Carries (conjuncts condition) parser := by
  refine bind skipComments (collect (conjunct_advances progress) rfl (fun parser _ => ?_) _)
  refine currentIs (ite (fun _ => ?_) fun _ => bind conjunction_carries pure)
  exact bind (inner parser) (bind skipComments pure)

theorem mediaModifier_carries : relocation.Carries mediaModifier parser := by
  refine bind acceptWord (ite (fun _ => pure) fun _ => bind acceptWord (ite (fun _ => pure) ?_))
  exact fun _ => pure

theorem mediaType_carries : relocation.Carries mediaType parser :=
  current rfl (ite (fun _ => bind advance pure) fun _ => pure)

theorem dropRest_carries {stop : Token → Bool} {place : String}
    (blind : ∀ token, stop (relocation.token token) = stop token) :
    relocation.Carries (dropRest stop place) parser := by
  refine currentToken ?_
  rw [blind]
  refine ite (fun _ => pure) fun _ => bind report ?_
  exact skip (Span.before_settles stop) fun _ => Span.before_map relocation.token blind _

theorem mediaExpression_carries : relocation.Carries mediaExpression parser := by
  refine bind skipComments ?_
  refine bind mediaModifier_carries ?_
  refine bind skipComments ?_
  refine bind mediaType_carries (bind ?_ ?_)
  · exact conjuncts_carries (fun _ opening => .map (mediaFeature_progresses opening)) fun _ =>
      map mediaFeature_carries
  · exact bind (dropRest_carries fun _ => rfl) pure

theorem nextExpression_carries : relocation.Carries nextExpression parser :=
  bind advance (bind skipComments (returning mediaExpression_carries))

theorem mediaQuery_carries : relocation.Carries mediaQuery parser := by
  refine bind skipComments (current rfl (ite (fun _ => pure) fun _ => ?_))
  refine bind mediaExpression_carries ?_
  exact returning (collect nextExpression_advances rfl (fun _ _ => nextExpression_carries) _)

theorem supportsValue_carries : relocation.Carries (supportsValue room) parser := by
  refine look (fun _ => importantFollows_eq) (ite (fun _ => returning tokenValue_carries) ?_)
  exact fun _ => separatedValue_carries fun _ => value_carries

theorem supportsDeclaration_carries : relocation.Carries (supportsDeclaration room) parser := by
  refine current rfl (bind advance (bind advance (bind ?_ (bind reportIf pure))))
  exact collect supportsValue_advances rfl (fun _ _ => supportsValue_carries) _

theorem supportsCall_carries : relocation.Carries (supportsCall room) parser :=
  current rfl (bind advance (bind advance (returning (arguments_carries room _))))

theorem dropSupportsToken_carries : relocation.Carries dropSupportsToken parser :=
  bind report (bind advance pure)

section Groups

variable {group : Reading (Option SupportsCondition)}
variable (inner : ∀ parser, relocation.Carries group parser)
include inner

theorem supportsNegation_carries : relocation.Carries (supportsNegation group) parser := by
  refine bind advance (bind skipComments (currentIs (ite (fun _ => ?_) fun _ => bind report pure)))
  exact returning (inner _)

theorem supportsName_carries {token : Token} (is : parser.current.kind = .ident) :
    relocation.Carries (supportsName room group token) parser := by
  refine ite (fun _ => ?_) fun _ => ite (fun _ => ?_) fun _ => nextIs (Token.seals_of_kind is rfl)
    (ite (fun _ => ?_) fun _ => nextIs (Token.seals_of_kind is rfl) (ite (fun _ => ?_) fun _ => ?_))
  · exact returning (bind advance pure)
  · exact returning (supportsNegation_carries inner)
  · exact returning supportsDeclaration_carries
  · exact returning supportsCall_carries
  · exact dropSupportsToken_carries

theorem supportsPart_carries : relocation.Carries (supportsPart room group) parser := by
  refine current rfl ?_
  split
  next => exact bind advance pure
  next => exact returning (inner _)
  next is => exact supportsName_carries inner is
  next => exact dropSupportsToken_carries

end Groups

theorem supportsGroup_carries (room : Nat) (parser : Parser) :
    relocation.Carries (supportsGroup room) parser := by
  induction room generalizing parser with
  | zero => exact bind report (bind advance (bind skipGroup pure))
  | succ room ih =>
    refine bind advance ?_
    refine bind (collect (supportsPart_advances .closeParen) rfl (fun _ _ => ?_) _) ?_
    · exact supportsPart_carries ih
    · exact bind reportIf (bind expect pure)

theorem supportsCondition_carries (terminator : Kind) :
    relocation.Carries (supportsCondition room terminator) parser :=
  map (collect (supportsPart_advances terminator) rfl (fun _ _ =>
    supportsPart_carries (supportsGroup_carries room)) _)

theorem containerValue_carries : relocation.Carries containerValue parser :=
  featureValue_carries fun _ => rfl

theorem containerFeatureValue_carries : relocation.Carries containerFeatureValue parser := by
  refine bind accept (ite (fun _ => returning containerValue_carries) fun _ => ?_)
  exact current rfl (ite (fun _ => pure) fun _ => returning containerValue_carries)

theorem containerFeature_carries {name : Token} :
    relocation.Carries (containerFeature name) parser :=
  bind advance (bind skipComments (returning containerFeatureValue_carries))

theorem containerPart_carries {group : Reading ContainerCondition}
    (inner : ∀ parser, relocation.Carries group parser) :
    relocation.Carries (containerPart group) parser := by
  refine bind (current rfl ?_) (bind skipComments pure)
  split
  next => exact ite (fun _ => bind advance pure) fun _ => containerFeature_carries
  next => exact map (inner _)
  next => exact bind report (bind advance pure)

theorem containerCondition_carries (room : Nat) (parser : Parser) :
    relocation.Carries (containerCondition room) parser := by
  induction room generalizing parser with
  | zero => exact bind report (bind advance (bind skipGroup pure))
  | succ room ih =>
    refine bind advance (bind skipComments (bind ?_ (bind expect pure)))
    exact collect containerPart_advances rfl (fun _ _ => containerPart_carries ih) _

theorem isContainerName_eq (keeps : relocation.Keeps parser.ahead)
    (covers : relocation.Covers parser) :
    isContainerName (relocation.parser parser) = isContainerName parser := by
  unfold isContainerName
  rw [current_eq covers]
  by_cases name : (parser.current.kind == .ident) = true
  · have plain := Token.seals_of_kind (eq_of_beq name) rfl
    have first : ∀ before < 1, (parser.nth before).seals = false := by
      intro before early
      obtain rfl := Nat.lt_one_iff.1 early
      exact plain
    rw [nextIs_eq covers plain, isAdjacent_eq keeps covers first]
    rfl
  · simp only [token_kind, Bool.eq_false_iff.2 name, Bool.false_and]

theorem containerLabel_carries : relocation.Carries containerLabel parser :=
  current rfl (look isContainerName_eq (ite (fun _ => bind advance pure) fun _ => pure))

theorem containerQuery_carries : relocation.Carries (containerQuery room) parser := by
  refine bind ?_ (bind (dropRest_carries fun _ => rfl) pure)
  refine conjuncts_carries (fun _ opening => ?_) fun _ => ?_
  · exact .bind_left (containerCondition_progresses opening)
  · exact returning (containerCondition_carries room _)

end Conditions

end CssSyntax.Grammar

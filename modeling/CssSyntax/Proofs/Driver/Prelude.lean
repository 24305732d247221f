import CssSyntax.Proofs.Driver.Run
import CssSyntax.Proofs.Grammar.Progress

/-! The parts of rules are driven: values, declarations and what stands before blocks. The counter
shows `depth` where they are met, so the room that is left is what it lacks to the limit. -/

namespace CssSyntax

open Driver (Seen)
open Reading.Driven

namespace Grammar

variable {depth : Nat} {parser : Parser}

/-- What the counter leaves. -/
abbrev roomAt (depth : Nat) : Nat := nestingLimit - depth

section Values

theorem startsNumeric_seen : Seen Parser.startsNumeric := by
  refine .near (fun current next third touch further =>
    if Parser.isSign current then
      touch && (if next.kind == .dot then further && third.kind == .number
        else next.kind == .number)
    else current.kind == .dot && touch && next.kind == .number) fun parser => ?_
  unfold Parser.startsNumeric
  by_cases sign : Parser.isSign parser.current = true
  · simp only [sign, if_true]
    cases parser.isAdjacent 1 <;> simp [Parser.next]
  · simp only [sign, Bool.false_eq_true, if_false]
    by_cases dot : (parser.nth 0).kind = .dot <;> simp [dot, Parser.current, Parser.next]

theorem unitFollows_seen : Seen Parser.unitFollows :=
  .near (fun _ next _ touch _ =>
    touch && (next.kind == .percentage || (next.kind == .ident && isUnit next.literal)))
    fun _ => rfl

theorem tokenValue_driven {meaning : Bytes → Value} :
    (tokenValue meaning).Driven depth parser :=
  current (advance pure)

theorem numberWithUnit_driven {number : Token} : (numberWithUnit number).Driven depth parser :=
  look unitFollows_seen (ite (fun _ => advance (current (advance pure))) fun _ => advance pure)

theorem numeric_driven : numeric.Driven depth parser := by
  have marks : (Reading.take Span.marks).Driven depth parser :=
    take (.before (fun token => !(Parser.isSign token || token.kind == .dot)) fun _ => rfl) 0 nofun
  exact bind marks (current (ite (fun _ => returning numberWithUnit_driven) fun _ => pure))

theorem hashValue_driven : hashValue.Driven depth parser :=
  current (advance (returning (take .glued _ nofun)))

theorem markValue_driven : markValue.Driven depth parser :=
  look startsNumeric_seen (ite (fun _ => returning numeric_driven) fun _ => tokenValue_driven)

theorem droppedValue_driven : droppedValue.Driven depth parser := bind report (advance pure)

theorem callWith_driven {arguments : Reading (List Value)}
    (reads : ∀ parser, arguments.Driven depth parser) : (callWith arguments).Driven depth parser :=
  current (advance (advance (returning (reads _))))

theorem valueWith_driven {arguments : Reading (List Value)}
    (reads : ∀ parser, arguments.Driven depth parser) :
    (valueWith arguments).Driven depth parser := by
  apply current
  split
  next => exact map (map numeric_driven)
  next => exact map markValue_driven
  next => exact map markValue_driven
  next => exact map markValue_driven
  next => exact map (nextIs (ite (fun _ => callWith_driven reads) fun _ => tokenValue_driven))
  next => exact map tokenValue_driven
  next => exact map tokenValue_driven
  next => exact map (advance (returning (reads _)))
  next => exact map hashValue_driven
  next => exact droppedValue_driven
  next => exact droppedValue_driven
  next => exact droppedValue_driven
  next => exact pure
  next => exact map tokenValue_driven

end Values

section Declarations

theorem separatedValue_driven {value : Reading (Option Value)}
    (reads : value.Driven depth parser) : (separatedValue value).Driven depth parser :=
  current (ite (fun _ => advance pure) fun _ => returning reads)

theorem closeArguments_driven : closeArguments.Driven depth parser :=
  current (ite (fun _ => step) fun _ => ite (fun _ => report) fun _ => report)

/-- Calls and groups are as deep as the counter shows. -/
theorem arguments_driven (depth : Nat) (parser : Parser) :
    (arguments (roomAt depth)).Driven depth parser := by
  have counted : arguments (roomAt depth) = nested depth refusedArguments fun inner =>
      argumentsWith (value (roomAt inner)) :=
    Counter.nested_room rfl (fun _ => rfl) depth
  rw [counted]
  refine Reading.Driven.nested (bind report (bind skipGroup pure)) fun free => ?_
  have inner (parser : Parser) : (value (roomAt (depth + 1))).Driven (depth + 1) parser :=
    valueWith_driven (arguments_driven (depth + 1))
  have args := fun parser => separatedValue_driven (inner parser)
  exact bind (collect separatedValue_advances args) (bind closeArguments_driven pure)
termination_by nestingLimit - depth

theorem value_driven : (value (roomAt depth)).Driven depth parser :=
  valueWith_driven (arguments_driven depth)

theorem call_driven : (call (roomAt depth)).Driven depth parser :=
  callWith_driven (arguments_driven depth)

theorem importantFollows_driven : importantFollows.Driven depth parser :=
  peek (.near (fun current next _ _ _ =>
    current.kind == .exclamation && next.isWord Word.importantWord) fun _ => rfl)

theorem declarationPart_driven :
    (declarationPart (value (roomAt depth))).Driven depth parser :=
  bind importantFollows_driven (ite (fun _ => advance (advance pure)) fun _ =>
    returning (separatedValue_driven value_driven))

theorem declarationBody_driven {key : Bytes} :
    (declarationBody (roomAt depth) key).Driven depth parser :=
  bind (collect declarationPart_advances fun _ => declarationPart_driven)
    (ite (fun _ => bind report pure) fun _ => pure)

theorem declaration_driven : (declaration (roomAt depth)).Driven depth parser := by
  refine current (ite (fun _ => advance (bind expect ?_)) fun _ => ?_)
  · exact ite (fun _ => declarationBody_driven) fun _ => bind skipDeclaration pure
  · exact bind report (bind skipDeclaration pure)

theorem blockDeclaration_driven : (blockDeclaration (roomAt depth)).Driven depth parser := by
  refine current (ite (fun _ => advance pure) fun _ => ite (fun _ => ?_) fun _ => ?_)
  · exact returning declaration_driven
  · exact bind report (bind skipDeclaration pure)

theorem closeBlock_driven {place : String} : (closeBlock place).Driven depth parser :=
  currentIs (ite (fun _ => step) fun _ => report)

theorem blockBody_driven {α : Type} {place : String} {member : Reading (List α)}
    (advances : Reading.Advances endsBlock member)
    (members : ∀ parser, member.Driven depth parser) :
    (blockBody place member).Driven depth parser :=
  bind (collect advances members) (bind closeBlock_driven pure)

theorem blockWith_driven {α : Type} {prelude : String} {body : Reading α}
    (inner : ∀ parser, body.Driven depth parser) : (blockWith prelude body).Driven depth parser :=
  bind expect (ite (fun _ => returning (inner _)) fun _ => bind skipBlock pure)

theorem declarationBlock_driven {place : String} :
    (declarationBlock (roomAt depth) place).Driven depth parser :=
  blockWith_driven fun _ => blockBody_driven blockDeclaration_advances fun _ =>
    blockDeclaration_driven

end Declarations

section Declared

theorem fontFace_driven : (fontFace (roomAt depth)).Driven depth parser :=
  returning declarationBlock_driven

theorem counterStyle_driven : (counterStyle (roomAt depth)).Driven depth parser := by
  refine current (ite (fun _ => advance (bind skipComments ?_)) fun _ => ?_)
  · exact returning declarationBlock_driven
  · exact bind report (bind skipBlock pure)

theorem colorProfile_driven : (colorProfile (roomAt depth)).Driven depth parser := by
  apply current
  split
  next => exact advance (bind skipComments (returning declarationBlock_driven))
  next => exact bind report (bind skipBlock pure)

theorem page_driven : (page (roomAt depth)).Driven depth parser :=
  bind (take (.before Token.isStructural fun _ => rfl) 0 nofun) (returning declarationBlock_driven)

theorem viewport_driven {name : Bytes} : (viewport (roomAt depth) name).Driven depth parser :=
  returning declarationBlock_driven

theorem stopSelector_driven : stopSelector.Driven depth parser := by
  refine current (ite (fun _ => advance pure) fun _ => ite (fun _ => advance pure) fun _ => ?_)
  refine ite (fun _ => returning numeric_driven) fun _ => look startsNumeric_seen ?_
  exact ite (fun _ => returning numeric_driven) fun _ => bind report (advance pure)

theorem keyframeStop_driven : (keyframeStop (roomAt depth)).Driven depth parser := by
  refine bind (collect stopSelector_advances fun _ => stopSelector_driven) (currentIs ?_)
  refine ite (fun _ => ?_) fun _ => bind report pure
  exact bind reportIf (returning declarationBlock_driven)

theorem keyframesMember_driven : (keyframesMember (roomAt depth)).Driven depth parser :=
  current (ite (fun _ => advance pure) fun _ => returning keyframeStop_driven)

theorem keyframes_driven {webkit : Bool} :
    (keyframes (roomAt depth) webkit).Driven depth parser := by
  apply current
  split
  next =>
    refine advance (bind skipComments (blockWith_driven fun _ => map ?_))
    exact blockBody_driven keyframesMember_advances fun _ => keyframesMember_driven
  next => exact bind report (bind skipBlock pure)

theorem family_driven : family.Driven depth parser := by
  apply current
  split
  next => exact advance pure
  next =>
    refine advance (returning (returning ?_))
    exact take (.before (fun token => token.kind != .ident) fun _ => rfl) 0 nofun
  next => exact advance pure

theorem featureBlock_driven : (featureBlock (roomAt depth)).Driven depth parser := by
  refine advance (current (ite (fun _ => advance (bind skipComments ?_)) fun _ => ?_))
  · exact returning declarationBlock_driven
  · exact bind report (bind skipAtRule pure)

theorem featureMember_driven : (featureMember (roomAt depth)).Driven depth parser := by
  apply current
  split
  next => exact advance pure
  next => exact advance pure
  next => exact returning featureBlock_driven
  next => exact bind report (advance pure)

theorem fontFeatureValues_driven : (fontFeatureValues (roomAt depth)).Driven depth parser := by
  refine bind (collect family_advances fun _ => family_driven) (currentIs ?_)
  refine ite (fun _ => bind reportIf (advance (returning ?_))) fun _ => ?_
  · exact blockBody_driven featureMember_advances fun _ => featureMember_driven
  · exact bind report (bind skipBlock pure)

end Declared

section Media

theorem featureValue_driven {stop : Token → Bool} : (featureValue stop).Driven depth parser :=
  returning (take (.inside stop) 0 nofun)

theorem mediaFeatureValue_driven : mediaFeatureValue.Driven depth parser := by
  refine bind accept (ite (fun _ => bind featureValue_driven (bind reportIf pure)) fun _ => ?_)
  exact currentIs (ite (fun _ => pure) fun _ => returning featureValue_driven)

theorem mediaFeature_driven : mediaFeature.Driven depth parser := by
  refine advance (bind skipComments (current (ite (fun _ => ?_) fun _ => ?_)))
  · refine advance (bind skipComments (bind mediaFeatureValue_driven (bind ?_ pure)))
    exact bind expect (ite (fun _ => pure) fun _ => skipGroup)
  · exact bind report (bind skipGroup pure)

theorem conjuncts_driven {α : Type} {condition : Reading (List α)}
    (progress : ∀ parser : Parser, parser.current.kind = .openParen → condition.Progresses parser)
    (conditions : ∀ parser, condition.Driven depth parser) :
    (conjuncts condition).Driven depth parser := by
  refine bind skipComments (collect (conjunct_advances progress) fun parser => currentIs ?_)
  refine ite (fun _ => bind (conditions _) (bind skipComments pure)) fun _ => bind ?_ pure
  exact advance (bind skipComments (currentIs reportIf))

theorem dropRest_driven {stop : Token → Bool} {place : String}
    (ends : ∀ position, stop (Token.endOfInput position) = true) :
    (dropRest stop place).Driven depth parser :=
  current (ite (fun _ => pure) fun _ => bind report (skip (.before stop ends) 0 nofun))

theorem mediaExpression_driven : mediaExpression.Driven depth parser := by
  have modifier {parser : Parser} : mediaModifier.Driven depth parser :=
    bind acceptWord (ite (fun _ => pure) fun _ =>
      bind acceptWord (ite (fun _ => pure) fun _ => pure))
  have type {parser : Parser} : mediaType.Driven depth parser :=
    current (ite (fun _ => advance pure) fun _ => pure)
  have features {parser : Parser} :
      (conjuncts (Option.toList <$> mediaFeature)).Driven depth parser :=
    conjuncts_driven (fun _ opens => mediaFeature_progresses opens) fun _ => map mediaFeature_driven
  refine bind skipComments (bind modifier (bind skipComments (bind type (bind features ?_))))
  exact bind (dropRest_driven fun _ => rfl) pure

theorem mediaQuery_driven : mediaQuery.Driven depth parser := by
  refine bind skipComments (current (ite (fun _ => pure) fun _ => ?_))
  refine bind mediaExpression_driven (returning (collect nextExpression_advances fun _ => ?_))
  exact advance (bind skipComments (returning mediaExpression_driven))

end Media

section Supports

theorem supportsDeclaration_driven :
    (supportsDeclaration (roomAt depth)).Driven depth parser := by
  have value {parser : Parser} : (supportsValue (roomAt depth)).Driven depth parser :=
    bind importantFollows_driven (ite (fun _ => returning tokenValue_driven) fun _ =>
      separatedValue_driven value_driven)
  refine current (advance (advance (bind (collect supportsValue_advances fun _ => value) ?_)))
  exact bind reportIf pure

theorem supportsCall_driven : (supportsCall (roomAt depth)).Driven depth parser :=
  current (advance (advance (returning (arguments_driven depth _))))

theorem dropSupportsToken_driven : dropSupportsToken.Driven depth parser :=
  bind report (advance pure)

section Groups

variable {group : Reading (Option SupportsCondition)}
variable (groups : ∀ parser, group.Driven depth parser)
include groups

theorem supportsName_driven {token : Token} :
    (supportsName (roomAt depth) group token).Driven depth parser := by
  refine ite (fun _ => returning (advance pure)) fun _ => ite (fun _ => returning ?_) fun _ => ?_
  · refine advance (bind skipComments (currentIs (ite (fun _ => ?_) fun _ => bind report pure)))
    exact returning (groups _)
  · refine nextIs (ite (fun _ => returning supportsDeclaration_driven) fun _ => nextIs ?_)
    exact ite (fun _ => returning supportsCall_driven) fun _ => dropSupportsToken_driven

theorem supportsPart_driven : (supportsPart (roomAt depth) group).Driven depth parser := by
  apply current
  split
  next => exact advance pure
  next => exact returning (groups _)
  next => exact supportsName_driven groups
  next => exact dropSupportsToken_driven

end Groups

theorem supportsGroup_driven (depth : Nat) (parser : Parser) :
    (supportsGroup (roomAt depth)).Driven depth parser := by
  have counted : supportsGroup (roomAt depth) = nested depth refusedSupportsGroup fun inner =>
      supportsInside (roomAt inner) (supportsGroup (roomAt inner)) :=
    Counter.nested_room rfl (fun _ => rfl) depth
  rw [counted]
  refine Reading.Driven.nested (bind report (advance (bind skipGroup pure))) fun free => ?_
  have inner := supportsGroup_driven (depth + 1)
  refine advance (bind (collect (supportsPart_advances .closeParen) fun _ => ?_) ?_)
  · exact supportsPart_driven inner
  exact bind reportIf (bind expect pure)
termination_by nestingLimit - depth

theorem supportsCondition_driven {terminator : Kind} :
    (supportsCondition (roomAt depth) terminator).Driven depth parser :=
  map (collect (supportsPart_advances terminator) fun _ =>
    supportsPart_driven (supportsGroup_driven depth))

end Supports

section Container

theorem containerPart_driven {group : Reading ContainerCondition}
    (groups : ∀ parser, group.Driven depth parser) :
    (containerPart group).Driven depth parser := by
  have value {parser : Parser} : containerFeatureValue.Driven depth parser := by
    refine bind accept (ite (fun _ => returning featureValue_driven) fun _ => current ?_)
    exact ite (fun _ => pure) fun _ => returning featureValue_driven
  refine bind (current ?_) (bind skipComments pure)
  split
  next =>
    refine ite (fun _ => advance pure) fun _ => ?_
    exact advance (bind skipComments (bind value pure))
  next => exact map (groups _)
  next => exact bind report (advance pure)

theorem containerCondition_driven (depth : Nat) (parser : Parser) :
    (containerCondition (roomAt depth)).Driven depth parser := by
  have counted : containerCondition (roomAt depth) = nested depth refusedContainerGroup fun inner =>
      containerInside (containerCondition (roomAt inner)) :=
    Counter.nested_room rfl (fun _ => rfl) depth
  rw [counted]
  refine Reading.Driven.nested (bind report (advance (bind skipGroup pure))) fun free => ?_
  have inner := containerCondition_driven (depth + 1)
  refine advance (bind skipComments (bind (collect containerPart_advances fun _ => ?_) ?_))
  · exact containerPart_driven inner
  exact bind expect pure
termination_by nestingLimit - depth

theorem isContainerName_seen : Seen isContainerName :=
  .near (fun current next _ touch _ =>
    current.kind == .ident && !current.isWord Word.notWord && !isAnd current
      && !(next.kind == .openParen && touch)) fun _ => rfl

theorem containerLabel_driven : containerLabel.Driven depth parser :=
  current (look isContainerName_seen (ite (fun _ => advance pure) fun _ => pure))

theorem containerQuery_driven : (containerQuery (roomAt depth)).Driven depth parser := by
  refine bind (conjuncts_driven ?_ ?_) (bind (dropRest_driven fun _ => rfl) pure)
  · exact fun _ opens => (containerCondition_progresses opens).bind_left
  · exact fun _ => returning (containerCondition_driven depth _)

end Container

section Statements

theorem startsUrl_seen : Seen startsUrl :=
  .near (fun current next _ _ _ =>
    current.isQuotedOrUri || (current.isWord Word.urlWord && next.kind == .openParen)) fun _ => rfl

theorem url_driven : (url (roomAt depth)).Driven depth parser :=
  bind skipComments (look startsUrl_seen (ite (fun _ => value_driven) fun _ => pure))

theorem keepFirst_driven {α : Type} {kept : Option α} {clause : α} {token : Token} :
    (keepFirst kept clause token).Driven depth parser := by
  cases kept with
  | none => exact pure
  | some first => exact bind reportAt pure

theorem importClause_driven {clauses : ImportClauses} :
    (importClause (roomAt depth) clauses).Driven depth parser := by
  refine current (ite (fun _ => bind ?_ (returning keepFirst_driven)) fun _ => nextIs ?_)
  · exact nextIs (ite (fun _ => call_driven) fun _ => tokenValue_driven)
  refine ite (fun _ => bind (advance (advance ?_)) (returning keepFirst_driven)) fun _ => ?_
  · exact bind supportsCondition_driven (bind expect pure)
  · refine ite (fun _ => returning mediaQuery_driven) fun _ => bind report (advance pure)

theorem importRule_driven : (importRule (roomAt depth)).Driven depth parser := by
  have clauses {parser : Parser} {clauses : ImportClauses} :
      (separatedClause (roomAt depth) clauses).Driven depth parser :=
    bind importClause_driven (bind skipComments pure)
  apply bind url_driven
  split
  next => exact bind report (bind skipDeclaration pure)
  next =>
    refine bind skipComments (bind (iterate separatedClause_advances fun _ _ => clauses) ?_)
    exact bind expect pure

theorem charset_driven : charset.Driven depth parser := by
  refine current (ite (fun _ => advance (bind expect pure)) fun _ => ?_)
  exact bind report (bind skipDeclaration pure)

theorem namespaceRule_driven : (namespaceRule (roomAt depth)).Driven depth parser := by
  have label {parser : Parser} : namespaceLabel.Driven depth parser :=
    current (look startsUrl_seen (ite (fun _ => advance pure) fun _ => pure))
  apply bind label
  apply bind url_driven
  split
  next => exact bind report (bind skipDeclaration pure)
  next => exact bind skipComments (bind expect pure)

end Statements

end Grammar

end CssSyntax

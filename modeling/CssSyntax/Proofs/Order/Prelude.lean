import CssSyntax.Grammar.Container
import CssSyntax.Grammar.DeclarationRule
import CssSyntax.Grammar.Selector
import CssSyntax.Grammar.Supports
import CssSyntax.Proofs.Order.Walk

/-! Values, declarations, selectors and what stands before blocks meet their problems in the order
of the tokens: each is recorded at the token where the reading then is. -/

namespace CssSyntax.Grammar

open Reading.Walks

variable {all : Option (List Token)}

section Values

theorem tokenValue_walks {meaning : Bytes → Value} : (tokenValue meaning).Walks all :=
  bind current fun _ => advancing pure

theorem numberWithUnit_walks {number : Token} : (numberWithUnit number).Walks all :=
  bind peek fun _ => ite (fun _ => advancing (bind current fun _ => advancing pure))
    fun _ => advancing pure

theorem numeric_walks : numeric.Walks all :=
  bind take fun _ => bind current fun _ =>
    ite (fun _ => returning numberWithUnit_walks) fun _ => pure

theorem hashValue_walks : hashValue.Walks all :=
  bind current fun _ => advancing (returning take)

theorem markValue_walks : markValue.Walks all :=
  bind peek fun _ => ite (fun _ => returning numeric_walks) fun _ => tokenValue_walks

theorem droppedValue_walks : droppedValue.Walks all := reporting (advancing pure)

section Arguments

variable {arguments : Reading (List Value)} (reads : arguments.Walks all)
include reads

theorem callWith_walks : (callWith arguments).Walks all :=
  bind current fun _ => advancing (advancing (returning reads))

theorem nameValue_walks : (nameValue arguments).Walks all :=
  bind nextIs fun _ => ite (fun _ => callWith_walks reads) fun _ => tokenValue_walks

theorem valueWith_walks : (valueWith arguments).Walks all := by
  refine bind current fun token => ?_
  split
  next => exact map (map numeric_walks)
  next => exact map markValue_walks
  next => exact map markValue_walks
  next => exact map markValue_walks
  next => exact map (nameValue_walks reads)
  next => exact map tokenValue_walks
  next => exact map tokenValue_walks
  next => exact map (advancing (returning reads))
  next => exact map hashValue_walks
  next => exact droppedValue_walks
  next => exact droppedValue_walks
  next => exact droppedValue_walks
  next => exact pure
  next => exact map tokenValue_walks

end Arguments

theorem separatedValue_walks {value : Reading (Option Value)} (reads : value.Walks all) :
    (separatedValue value).Walks all :=
  bind current fun _ => ite (fun _ => advancing pure) fun _ => returning reads

theorem closeArguments_walks : closeArguments.Walks all :=
  bind current fun _ => ite (fun _ => advance) fun _ => ite (fun _ => report) fun _ => report

theorem arguments_walks (room : Nat) : (arguments room).Walks all := by
  induction room with
  | zero => exact reporting (bind skip fun _ => pure)
  | succ room ih =>
    refine bind (collect (separatedValue_walks (valueWith_walks ih))) fun _ => ?_
    exact bind closeArguments_walks fun _ => pure

variable {room : Nat}

theorem value_walks : (value room).Walks all := valueWith_walks (arguments_walks room)

theorem call_walks : (call room).Walks all := callWith_walks (arguments_walks room)

end Values

section Declarations

variable {room : Nat}

theorem importantFollows_walks : importantFollows.Walks all := peek

theorem declarationPart_walks {value : Reading (Option Value)} (reads : value.Walks all) :
    (declarationPart value).Walks all :=
  bind importantFollows_walks fun _ => ite (fun _ => advancing (advancing pure))
    fun _ => returning (separatedValue_walks reads)

theorem declarationBody_walks {key : Bytes} : (declarationBody room key).Walks all :=
  bind (collect (declarationPart_walks value_walks)) fun _ =>
    ite (fun _ => reporting pure) fun _ => pure

theorem declaration_walks : (declaration room).Walks all := by
  refine bind current fun _ => ite (fun _ => advancing (bind expect fun _ => ?_)) fun _ => ?_
  · exact ite (fun _ => declarationBody_walks) fun _ => bind skip fun _ => pure
  · exact reporting (bind skip fun _ => pure)

theorem closeBlock_walks {place : String} : (closeBlock place).Walks all :=
  bind currentIs fun _ => ite (fun _ => advance) fun _ => report

theorem blockBody_walks {α : Type} {place : String} {member : Reading (List α)}
    (members : member.Walks all) : (blockBody place member).Walks all :=
  bind (collect members) fun _ => bind closeBlock_walks fun _ => pure

theorem blockWith_walks {α : Type} {place : String} {body : Reading α}
    (reads : body.Walks all) : (blockWith place body).Walks all :=
  bind expect fun _ => ite (fun _ => returning reads) fun _ => bind skip fun _ => pure

theorem blockDeclaration_walks : (blockDeclaration room).Walks all := by
  refine bind current fun _ => ite (fun _ => advancing pure) fun _ => ite (fun _ => ?_) fun _ => ?_
  · exact returning declaration_walks
  · exact reporting (bind skip fun _ => pure)

theorem declarationBlock_walks {place : String} : (declarationBlock room place).Walks all :=
  blockWith_walks (blockBody_walks blockDeclaration_walks)

end Declarations

section DeclarationRules

variable {room : Nat}

/-- Without what has to stand before its block, a rule is dropped with a problem. -/
theorem refusal_walks {α : Type} {problem : Problem} {span : List Token → Nat} :
    (do
      Reading.report problem
      Reading.skip span
      return none : Reading (Option α)).Walks all :=
  reporting (bind skip fun _ => pure)

theorem fontFace_walks : (fontFace room).Walks all := returning declarationBlock_walks

theorem counterStyle_walks : (counterStyle room).Walks all := by
  refine bind current fun _ => ite (fun _ => advancing ?_) fun _ => refusal_walks
  exact bind skip fun _ => returning declarationBlock_walks

theorem colorProfile_walks : (colorProfile room).Walks all := by
  refine bind current fun token => ?_
  cases profileName token with
  | none => exact refusal_walks
  | some profile => exact advancing (bind skip fun _ => returning declarationBlock_walks)

theorem page_walks : (page room).Walks all :=
  bind take fun _ => returning declarationBlock_walks

theorem viewport_walks {name : Bytes} : (viewport room name).Walks all :=
  returning declarationBlock_walks

theorem stopSelector_walks : stopSelector.Walks all := by
  refine bind current fun token => ite (fun _ => advancing pure) fun _ =>
    ite (fun _ => advancing pure) fun _ => ite (fun _ => returning numeric_walks) fun _ => ?_
  refine bind peek fun _ => ite (fun _ => returning numeric_walks) fun _ => ?_
  exact reporting (advancing pure)

theorem stopBlock_walks {stops : List Bytes} : (stopBlock room stops).Walks all :=
  bind reportIf fun _ => returning declarationBlock_walks

theorem keyframeStop_walks : (keyframeStop room).Walks all :=
  bind (collect stopSelector_walks) fun _ => bind currentIs fun _ =>
    ite (fun _ => stopBlock_walks) fun _ => reporting pure

theorem keyframesMember_walks : (keyframesMember room).Walks all :=
  bind current fun _ => ite (fun _ => advancing pure) fun _ => returning keyframeStop_walks

theorem keyframes_walks {webkit : Bool} : (keyframes room webkit).Walks all := by
  refine bind current fun token => ?_
  cases keyframesName token with
  | none => exact refusal_walks
  | some name =>
    refine advancing (bind skip fun _ => blockWith_walks (map ?_))
    exact blockBody_walks keyframesMember_walks

theorem family_walks : family.Walks all := by
  refine bind current fun token => ?_
  split
  next => exact advancing pure
  next => exact advancing (returning (returning take))
  next => exact advancing pure

theorem featureBlock_walks : (featureBlock room).Walks all := by
  refine advancing (bind current fun _ => ite (fun _ => advancing ?_) fun _ => refusal_walks)
  exact bind skip fun _ => returning declarationBlock_walks

theorem featureMember_walks : (featureMember room).Walks all := by
  refine bind current fun token => ?_
  split
  next => exact advancing pure
  next => exact advancing pure
  next => exact returning featureBlock_walks
  next => exact reporting (advancing pure)

theorem fontFeatureValues_walks : (fontFeatureValues room).Walks all := by
  refine bind (collect family_walks) fun _ => bind currentIs fun _ =>
    ite (fun _ => bind reportIf fun _ => advancing ?_) fun _ => refusal_walks
  exact returning (blockBody_walks featureMember_walks)

end DeclarationRules

section MediaQueries

theorem featureValue_walks {stop : Token → Bool} : (featureValue stop).Walks all :=
  returning take

theorem mediaFeatureValue_walks : mediaFeatureValue.Walks all := by
  refine bind accept fun _ => ite (fun _ => ?_) fun _ => bind currentIs fun _ =>
    ite (fun _ => pure) fun _ => returning featureValue_walks
  exact bind featureValue_walks fun _ => bind reportIf fun _ => pure

theorem closeFeature_walks : closeFeature.Walks all :=
  bind expect fun _ => ite (fun _ => pure) fun _ => skip

theorem mediaFeature_walks : mediaFeature.Walks all := by
  refine advancing (bind skip fun _ => bind current fun _ => ?_)
  refine ite (fun _ => advancing (bind skip fun _ => ?_)) fun _ => refusal_walks
  refine bind mediaFeatureValue_walks fun _ => ?_
  exact bind closeFeature_walks fun _ => pure

theorem conjunction_walks : conjunction.Walks all :=
  advancing (bind skip fun _ => bind currentIs fun _ => reportIf)

theorem conjuncts_walks {α : Type} {condition : Reading (List α)}
    (reads : condition.Walks all) : (conjuncts condition).Walks all := by
  refine bind skip fun _ => collect (bind currentIs fun _ => ite (fun _ => ?_) fun _ => ?_)
  · exact bind reads fun _ => bind skip fun _ => pure
  · exact bind conjunction_walks fun _ => pure

theorem mediaModifier_walks : mediaModifier.Walks all :=
  bind acceptWord fun _ => ite (fun _ => pure) fun _ => bind acceptWord fun _ =>
    ite (fun _ => pure) fun _ => pure

theorem mediaType_walks : mediaType.Walks all :=
  bind current fun _ => ite (fun _ => advancing pure) fun _ => pure

theorem dropRest_walks {stop : Token → Bool} {place : String} :
    (dropRest stop place).Walks all :=
  bind current fun _ => ite (fun _ => pure) fun _ => reporting skip

theorem mediaExpression_walks : mediaExpression.Walks all := by
  refine bind skip fun _ => bind mediaModifier_walks fun _ => bind skip fun _ => ?_
  refine bind mediaType_walks fun _ => bind (conjuncts_walks (map mediaFeature_walks)) fun _ => ?_
  exact bind dropRest_walks fun _ => pure

theorem nextExpression_walks : nextExpression.Walks all :=
  advancing (bind skip fun _ => returning mediaExpression_walks)

theorem mediaQuery_walks : mediaQuery.Walks all := by
  refine bind skip fun _ => bind current fun _ => ite (fun _ => pure) fun _ => ?_
  exact bind mediaExpression_walks fun _ => returning (collect nextExpression_walks)

end MediaQueries

section SupportConditions

variable {room : Nat}

theorem supportsValue_walks : (supportsValue room).Walks all :=
  bind importantFollows_walks fun _ => ite (fun _ => returning tokenValue_walks)
    fun _ => separatedValue_walks value_walks

theorem supportsDeclaration_walks : (supportsDeclaration room).Walks all := by
  refine bind current fun _ => advancing (advancing ?_)
  exact bind (collect supportsValue_walks) fun _ => bind reportIf fun _ => pure

theorem supportsCall_walks : (supportsCall room).Walks all :=
  bind current fun _ => advancing (advancing (returning (arguments_walks room)))

theorem dropSupportsToken_walks : dropSupportsToken.Walks all := reporting (advancing pure)

section Groups

variable {group : Reading (Option SupportsCondition)} (reads : group.Walks all)
include reads

theorem supportsNegation_walks : (supportsNegation group).Walks all :=
  advancing (bind skip fun _ => bind currentIs fun _ => ite (fun _ => returning reads)
    fun _ => reporting pure)

theorem supportsName_walks {token : Token} : (supportsName room group token).Walks all := by
  refine ite (fun _ => returning (advancing pure)) fun _ => ite (fun _ => ?_) fun _ => ?_
  · exact returning (supportsNegation_walks reads)
  refine bind nextIs fun _ => ite (fun _ => returning supportsDeclaration_walks) fun _ => ?_
  refine bind nextIs fun _ => ite (fun _ => returning supportsCall_walks) fun _ => ?_
  exact dropSupportsToken_walks

theorem supportsSequence_walks {terminator : Kind} :
    (supportsSequence room group terminator).Walks all := by
  refine collect (bind current fun token => ?_)
  split
  next => exact advancing pure
  next => exact returning reads
  next => exact supportsName_walks reads
  next => exact dropSupportsToken_walks

end Groups

theorem supportsGroup_walks (room : Nat) : (supportsGroup room).Walks all := by
  induction room with
  | zero => exact reporting (advancing (bind skip fun _ => pure))
  | succ room ih =>
    refine advancing (bind (supportsSequence_walks ih) fun _ => bind reportIf fun _ => ?_)
    exact bind expect fun _ => pure

theorem supportsCondition_walks {terminator : Kind} :
    (supportsCondition room terminator).Walks all :=
  map (supportsSequence_walks (supportsGroup_walks room))

end SupportConditions

section Containers

theorem containerValue_walks : containerValue.Walks all := featureValue_walks

theorem containerFeature_walks {name : Token} : (containerFeature name).Walks all := by
  have value : containerFeatureValue.Walks all :=
    bind accept fun _ => ite (fun _ => returning containerValue_walks) fun _ =>
      bind current fun _ => ite (fun _ => pure) fun _ => returning containerValue_walks
  exact advancing (bind skip fun _ => returning value)

theorem containerPart_walks {group : Reading ContainerCondition} (reads : group.Walks all) :
    (containerPart group).Walks all := by
  refine bind (bind current fun token => ?_) fun _ => bind skip fun _ => pure
  split
  next => exact ite (fun _ => advancing pure) fun _ => containerFeature_walks
  next => exact map reads
  next => exact reporting (advancing pure)

theorem containerCondition_walks (room : Nat) : (containerCondition room).Walks all := by
  induction room with
  | zero => exact reporting (advancing (bind skip fun _ => pure))
  | succ room ih =>
    refine advancing (bind skip fun _ => bind (collect (containerPart_walks ih)) fun _ => ?_)
    exact bind expect fun _ => pure

theorem containerLabel_walks : containerLabel.Walks all :=
  bind current fun _ => bind peek fun _ => ite (fun _ => advancing pure) fun _ => pure

theorem containerQuery_walks {room : Nat} : (containerQuery room).Walks all :=
  bind (conjuncts_walks (returning (containerCondition_walks room))) fun _ =>
    bind dropRest_walks fun _ => pure

end Containers

section Selectors

theorem markedName_walks {mark : Token} {kind : SelectorKind} {place : String} :
    (markedName mark kind place).Walks all :=
  advancing (bind current fun _ => ite (fun _ => advancing pure) fun _ => reporting pure)

theorem attributeAtom_walks : attributeAtom.Walks all :=
  advancing (bind take fun _ => bind expect fun _ => pure)

theorem pseudoArgument_walks : pseudoArgument.Walks all :=
  bind current fun _ => advancing (bind take fun _ => bind current fun _ =>
    bind expect fun _ => ite (fun _ => pure) fun _ => pure)

theorem pseudoAtom_walks {colons : Token} : (pseudoAtom colons).Walks all := by
  have argument : optionalArgument.Walks all :=
    bind currentIs fun _ => ite (fun _ => pseudoArgument_walks) fun _ => pure
  refine advancing (bind current fun _ => ite (fun _ => advancing ?_) fun _ => reporting pure)
  exact returning argument

theorem selectorAtom_walks : selectorAtom.Walks all := by
  refine bind current fun token => ?_
  split
  next => exact advancing pure
  next => exact advancing pure
  next => exact advancing pure
  next => exact markedName_walks
  next => exact markedName_walks
  next => exact advancing pure
  next => exact returning attributeAtom_walks
  next => exact pseudoAtom_walks
  next => exact pseudoAtom_walks
  next => exact advancing pure
  next => exact advancing pure
  next => exact advancing pure
  next => exact advancing pure
  next => exact reporting (advancing pure)

theorem ruleSetWith_walks {block : Reading (Option (List Node))} (blocks : block.Walks all) :
    (ruleSetWith block).Walks all :=
  bind (collect selectorAtom_walks) fun _ => bind currentIs fun _ =>
    ite (fun _ => returning blocks) fun _ => reporting pure

end Selectors

end CssSyntax.Grammar

import CssSyntax.Proofs.Braces.Value

/-! What stands before a block, and the statements that have none, take no braces: selectors,
queries, conditions and imports never go past a brace. -/

namespace CssSyntax.Grammar

open Reading Mirrors

variable {α : Type} {parser : Parser} {room : Nat}

theorem skipComments_mirrors : skipComments.Mirrors parser noBraces :=
  skip_mirrors comments_plain

theorem skipGroup_mirrors : skipGroup.Mirrors parser noBraces :=
  skip_mirrors (group_plain 0)

section Selectors

theorem tokenAtom_mirrors {kind : SelectorKind} {token : Token}
    (plain : parser.current.brace? = none) : (tokenAtom kind token).Mirrors parser noBraces :=
  (advance_mirrors plain).before (pure rfl)

theorem markedName_mirrors {mark : Token} {kind : SelectorKind} {place : String}
    (plain : parser.current.brace? = none) :
    (markedName mark kind place).Mirrors parser noBraces := by
  refine (advance_mirrors plain).before (current (ite (fun name => ?_) fun _ => ?_))
  · exact (advance_mirrors (brace?_of_kind name)).before (pure rfl)
  · exact report fun _ => pure_level

theorem attribute_plain : IsPlain (Span.before endsAttribute) :=
  before_plain (fun _ _ => rfl) fun _ _ => rfl

theorem attributeAtom_mirrors (plain : parser.current.brace? = none) :
    attributeAtom.Mirrors parser noBraces :=
  (advance_mirrors plain).before
    ((take_mirrors attribute_plain).before (before (expect_mirrors rfl) (pure rfl)))

theorem pseudoArgument_mirrors (plain : parser.current.brace? = none) :
    pseudoArgument.Mirrors parser noBraces := by
  refine current ((advance_mirrors plain).before ?_)
  refine (take_mirrors (inside_plain _ 0)).before (current (before (expect_mirrors rfl) ?_))
  exact ite (fun _ => pure rfl) fun _ => pure rfl

theorem pseudoAtom_mirrors {colons : Token} (plain : parser.current.brace? = none) :
    (pseudoAtom colons).Mirrors parser noBraces := by
  refine (advance_mirrors plain).before (current (ite (fun name => ?_) fun _ => ?_))
  · refine (advance_mirrors (brace?_of_kind name)).before (before ?_ (pure rfl))
    refine currentIs (ite (fun opens => ?_) fun _ => pure rfl)
    exact pseudoArgument_mirrors (brace?_of_kind (currentIs_iff.1 opens))
  · exact report fun _ => pure_level

theorem selectorAtom_mirrors (going : parser.current.isStructural = false) :
    selectorAtom.Mirrors parser noBraces := by
  have plain := brace?_of_isStructural going
  have forward := advance_mirrors plain
  refine current ?_
  split
  next => exact forward.before (pure rfl)
  next => exact tokenAtom_mirrors plain
  next => exact tokenAtom_mirrors plain
  next => exact markedName_mirrors plain
  next => exact markedName_mirrors plain
  next => exact tokenAtom_mirrors plain
  next => exact returning (attributeAtom_mirrors plain)
  next => exact pseudoAtom_mirrors plain
  next => exact pseudoAtom_mirrors plain
  next => exact tokenAtom_mirrors plain
  next => exact tokenAtom_mirrors plain
  next => exact tokenAtom_mirrors plain
  next => exact tokenAtom_mirrors plain
  next => exact report fun _ => forward.level.bind pure_level

end Selectors

section Media

theorem featureValue_mirrors {stop : Token → Bool} :
    (featureValue stop).Mirrors parser noBraces :=
  returning (take_mirrors (inside_plain stop 0))

theorem mediaFeatureValue_mirrors : mediaFeatureValue.Mirrors parser noBraces := by
  refine before (accept_mirrors rfl) (ite (fun _ => ?_) fun _ => ?_)
  · exact featureValue_mirrors.before (reportIf (pure rfl))
  · exact currentIs (ite (fun _ => pure rfl) fun _ => returning featureValue_mirrors)

theorem closeFeature_mirrors : closeFeature.Mirrors parser noBraces :=
  before (expect_mirrors rfl) (ite (fun _ => pure rfl) fun _ => skipGroup_mirrors)

theorem mediaFeature_mirrors (opens : parser.current.kind = .openParen) :
    mediaFeature.Mirrors parser noBraces := by
  refine (advance_mirrors (brace?_of_kind opens)).before (skipComments_mirrors.before ?_)
  refine current (ite (fun name => ?_) fun _ => ?_)
  · refine (advance_mirrors (brace?_of_kind name)).before (skipComments_mirrors.before ?_)
    exact mediaFeatureValue_mirrors.before (closeFeature_mirrors.before (pure rfl))
  · exact report fun _ => skipGroup_mirrors.level.bind pure_level

/-- Conditions joined by `and` take no braces if none of them does. -/
theorem conjuncts_mirrors {condition : Reading (List α)}
    (progress : ∀ parser : Parser, parser.current.kind = .openParen → condition.Progresses parser)
    (inner : ∀ parser : Parser, parser.current.kind = .openParen →
      condition.Mirrors parser noBraces) : (conjuncts condition).Mirrors parser noBraces := by
  refine skipComments_mirrors.before
    (collect_mirrors_noBraces (conjunct_advances progress) (fun parser going => ?_) _)
  refine currentIs (ite (fun opens => ?_) fun other => ?_)
  · exact (inner parser (currentIs_iff.1 opens)).before (skipComments_mirrors.before (pure rfl))
  · have word : parser.current.isWord Word.andWord = true :=
      (conjunct_cases going).resolve_left fun opens => other (currentIs_iff.2 opens)
    have conjunction : conjunction.Mirrors parser noBraces :=
      (advance_mirrors (brace?_of_isWord word)).before
        (skipComments_mirrors.before (currentIs reportIf_mirrors))
    exact conjunction.before (pure rfl)

theorem brace?_of_endsExpression {token : Token} (going : endsExpression token = false) :
    token.brace? = none :=
  brace?_of_going (fun _ _ => rfl) (fun _ _ => rfl) going

theorem dropRest_mirrors {stop : Token → Bool} {place : String}
    (stops : ∀ token, stop token = false → token.brace? = none) :
    (dropRest stop place).Mirrors parser noBraces := by
  refine current (ite (fun _ => pure rfl) fun _ => ?_)
  exact report fun _ => (skip_mirrors (IsPlain.before stops)).level

theorem mediaExpression_mirrors : mediaExpression.Mirrors parser noBraces := by
  have modifier (parser : Parser) : mediaModifier.Mirrors parser noBraces :=
    acceptWord_mirrors.before (ite (fun _ => pure rfl) fun _ =>
      acceptWord_mirrors.before (ite (fun _ => pure rfl) fun _ => pure rfl))
  have type (parser : Parser) : mediaType.Mirrors parser noBraces := by
    refine current (ite (fun name => ?_) fun _ => pure rfl)
    exact (advance_mirrors (brace?_of_kind name.1)).before (pure rfl)
  have features (parser : Parser) :
      (conjuncts (Option.toList <$> mediaFeature)).Mirrors parser noBraces :=
    conjuncts_mirrors (fun _ opens => Progresses.map (mediaFeature_progresses opens))
      fun _ opens => map (mediaFeature_mirrors opens)
  refine skipComments_mirrors.before ((modifier _).before (skipComments_mirrors.before ?_))
  refine (type _).before ((features _).before (before ?_ (pure rfl)))
  exact dropRest_mirrors fun _ => brace?_of_endsExpression

theorem mediaQuery_mirrors : mediaQuery.Mirrors parser noBraces := by
  refine skipComments_mirrors.before (current (ite (fun _ => pure rfl) fun _ => ?_))
  refine mediaExpression_mirrors.before (before ?_ (pure rfl))
  refine collect_mirrors_noBraces nextExpression_advances (fun parser going => ?_) _
  have comma : parser.current.kind = .comma := by simpa using going
  exact (advance_mirrors (brace?_of_kind comma)).before
    (skipComments_mirrors.before (returning mediaExpression_mirrors))

end Media

section Supports

theorem supportsValue_mirrors (going : endsSupportsDeclaration parser.current = false) :
    (supportsValue room).Mirrors parser noBraces := by
  have plain : parser.current.brace? = none :=
    brace?_of_going (fun _ _ => rfl) (fun _ _ => rfl) going
  have notClosing : parser.current.kind ≠ .closeBrace := kind_ne_of_going (fun _ _ => rfl) going
  refine look (ite (fun _ => ?_) fun _ => ?_)
  · exact returning (tokenValue_mirrors plain)
  · exact separatedValue_mirrors (arguments_mirrors room) notClosing

theorem supportsDeclaration_mirrors (plain : parser.current.brace? = none)
    (colon : parser.next.kind = .colon) :
    (supportsDeclaration room).Mirrors parser noBraces := by
  refine current (advance_advance_mirrors plain (brace?_of_kind colon) fun parser => ?_)
  apply Mirrors.before
  · exact collect_mirrors_noBraces supportsValue_advances (fun _ => supportsValue_mirrors) parser
  · exact reportIf (pure rfl)

theorem supportsCall_mirrors (plain : parser.current.brace? = none)
    (opens : parser.next.kind = .openParen) : (supportsCall room).Mirrors parser noBraces :=
  current (advance_advance_mirrors plain (brace?_of_kind opens) fun _ =>
    returning (arguments_mirrors room _))

theorem dropSupportsToken_mirrors (plain : parser.current.brace? = none) :
    dropSupportsToken.Mirrors parser noBraces :=
  report fun _ => (advance_mirrors plain).level.bind pure_level

section Groups

variable {group : Reading (Option SupportsCondition)}
  (inner : ∀ parser : Parser, parser.current.kind = .openParen → group.Mirrors parser noBraces)
include inner

theorem supportsName_mirrors {token : Token} (plain : parser.current.brace? = none) :
    (supportsName room group token).Mirrors parser noBraces := by
  have forward := advance_mirrors plain
  refine ite (fun _ => ?_) fun _ => ite (fun _ => ?_) fun _ => ?_
  · exact returning (forward.before (pure rfl))
  · refine returning (forward.before (skipComments_mirrors.before ?_))
    refine currentIs (ite (fun opens => ?_) fun _ => report fun _ => pure_level)
    exact returning (inner _ (currentIs_iff.1 opens))
  · apply Mirrors.nextIs
    apply Mirrors.ite
    · intro colon
      exact returning (supportsDeclaration_mirrors plain (nextIs_iff.1 colon))
    intro _
    apply Mirrors.nextIs
    apply Mirrors.ite
    · intro opens
      exact returning (supportsCall_mirrors plain (nextIs_iff.1 opens))
    · intro _
      exact dropSupportsToken_mirrors plain

theorem supportsPart_mirrors (going : parser.current.isStructural = false) :
    (supportsPart room group).Mirrors parser noBraces := by
  have plain := brace?_of_isStructural going
  refine current ?_
  split
  next => exact (advance_mirrors plain).before (pure rfl)
  next opens => exact returning (inner _ opens)
  next => exact supportsName_mirrors inner plain
  next => exact dropSupportsToken_mirrors plain

end Groups

theorem supportsSequence_mirrors (terminator : Kind)
    (inner : ∀ parser : Parser, parser.current.kind = .openParen →
      (supportsGroup room).Mirrors parser noBraces) :
    (supportsSequence room (supportsGroup room) terminator).Mirrors parser noBraces := by
  refine collect_mirrors_noBraces (supportsPart_advances terminator) (fun parser going => ?_) _
  simp only [endsSupports, Bool.or_eq_false_iff] at going
  exact supportsPart_mirrors inner going.2

theorem supportsGroup_mirrors (opens : parser.current.kind = .openParen) :
    (supportsGroup room).Mirrors parser noBraces := by
  have forward (parser : Parser) (opens : parser.current.kind = .openParen) :=
    advance_mirrors (brace?_of_kind opens)
  induction room generalizing parser with
  | zero =>
    exact report fun _ => (forward _ opens).level.bind (skipGroup_mirrors.level.bind pure_level)
  | succ room ih =>
    refine (forward _ opens).before ((supportsSequence_mirrors .closeParen fun _ => ih).before ?_)
    exact reportIf (before (expect_mirrors rfl) (pure (by split <;> rfl)))

theorem supportsCondition_mirrors (terminator : Kind) :
    (supportsCondition room terminator).Mirrors parser noBraces :=
  map (supportsSequence_mirrors terminator fun _ => supportsGroup_mirrors)

end Supports

section Container

theorem containerFeature_mirrors {name : Token} (plain : parser.current.brace? = none) :
    (containerFeature name).Mirrors parser noBraces := by
  refine (advance_mirrors plain).before (skipComments_mirrors.before (before ?_ (pure rfl)))
  refine before (accept_mirrors rfl) (ite (fun _ => returning featureValue_mirrors) fun _ => ?_)
  exact current (ite (fun _ => pure rfl) fun _ => returning featureValue_mirrors)

theorem containerPart_mirrors {group : Reading ContainerCondition}
    (inner : ∀ parser : Parser, parser.current.kind = .openParen → group.Mirrors parser noBraces)
    (going : endsContainerGroup parser.current = false) :
    (containerPart group).Mirrors parser noBraces := by
  have plain : parser.current.brace? = none :=
    brace?_of_going (fun _ _ => rfl) (fun _ _ => rfl) going
  have forward := advance_mirrors plain
  refine before (current ?_) (skipComments_mirrors.before (pure rfl))
  split
  next => exact ite (fun _ => forward.before (pure rfl)) fun _ => containerFeature_mirrors plain
  next opens => exact map (inner _ opens)
  next => exact report fun _ => forward.level.bind pure_level

theorem containerCondition_mirrors (opens : parser.current.kind = .openParen) :
    (containerCondition room).Mirrors parser noBraces := by
  have forward (parser : Parser) (opens : parser.current.kind = .openParen) :=
    advance_mirrors (brace?_of_kind opens)
  induction room generalizing parser with
  | zero =>
    exact report fun _ => (forward _ opens).level.bind (skipGroup_mirrors.level.bind pure_level)
  | succ room ih =>
    refine (forward _ opens).before (skipComments_mirrors.before (before ?_ ?_))
    · exact collect_mirrors_noBraces containerPart_advances
        (fun _ => containerPart_mirrors fun _ => ih) _
    · exact before (expect_mirrors rfl) (pure rfl)

theorem containerLabel_mirrors : containerLabel.Mirrors parser noBraces := by
  refine current (look (ite (fun label => ?_) fun _ => pure rfl))
  have name : parser.current.kind = .ident := by
    simp only [isContainerName, Bool.and_eq_true, beq_iff_eq] at label
    exact label.1.1.1
  exact (advance_mirrors (brace?_of_kind name)).before (pure rfl)

theorem containerQuery_mirrors : (containerQuery room).Mirrors parser noBraces := by
  refine before ?_ (before (dropRest_mirrors fun _ => brace?_of_isStructural) (pure rfl))
  exact conjuncts_mirrors
    (fun _ opens => Progresses.bind_left (containerCondition_progresses opens))
    fun _ opens => returning (containerCondition_mirrors opens)

end Container

section Statements

theorem url_mirrors : (url room).Mirrors parser noBraces := by
  refine skipComments_mirrors.before (look (ite (fun starts => ?_) fun _ => pure rfl))
  refine value_mirrors fun closes => ?_
  simp [startsUrl, Token.isQuotedOrUri, Token.isWord, closes] at starts

theorem layerClause_mirrors (plain : parser.current.brace? = none) :
    (layerClause room).Mirrors parser noBraces := by
  refine nextIs (ite (fun opens => ?_) fun _ => tokenValue_mirrors plain)
  exact call_mirrors plain (nextIs_iff.1 opens)

theorem keepFirst_mirrors {kept : Option α} {clause : α} {token : Token} :
    (keepFirst kept clause token).Mirrors parser noBraces := by
  cases kept with
  | none => exact pure rfl
  | some first => exact reportAt fun _ => pure_level

theorem importClause_mirrors {clauses : ImportClauses}
    (going : parser.current.isStructural = false) :
    (importClause room clauses).Mirrors parser noBraces := by
  have plain := brace?_of_isStructural going
  apply Mirrors.current
  apply Mirrors.ite
  · intro _
    exact (layerClause_mirrors plain).before (returning keepFirst_mirrors)
  intro _
  apply Mirrors.nextIs
  apply Mirrors.ite
  · intro supports
    have opens : parser.next.kind = .openParen :=
      nextIs_iff.1 (Bool.and_eq_true_iff.1 supports).2
    have condition : (supportsClause room).Mirrors parser noBraces :=
      advance_advance_mirrors plain (brace?_of_kind opens) fun _ =>
        (supportsCondition_mirrors .closeParen).before (before (expect_mirrors rfl) (pure rfl))
    exact condition.before (returning keepFirst_mirrors)
  intro _
  apply Mirrors.ite
  · intro _
    exact returning mediaQuery_mirrors
  · intro _
    exact report fun _ => (advance_mirrors plain).level.bind pure_level

end Statements

end CssSyntax.Grammar

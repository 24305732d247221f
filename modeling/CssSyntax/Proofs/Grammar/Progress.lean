import CssSyntax.Production
import CssSyntax.Proofs.Parser.Motion

/-! Every loop of the grammar makes progress: a token outside its stop set is always taken, also
where no room is left and a block or group is skipped. So the guard that ends a loop after an item
without tokens never fires, and a parse goes on until the end of the input. -/

namespace CssSyntax.Grammar

open Reading Progresses

variable {α : Type} {parser : Parser} {room : Nat}

theorem kind_ne_eof_of_eq {kind : Kind} (is : parser.current.kind = kind)
    (other : kind ≠ .eof) : parser.current.kind ≠ .eof :=
  is ▸ other

section Values

theorem tokenValue_progresses {meaning : Bytes → Value} (notEnd : parser.current.kind ≠ .eof) :
    (tokenValue meaning).Progresses parser :=
  bind (bind_left (advance_progresses notEnd))

theorem numberWithUnit_progresses {number : Token} (notEnd : parser.current.kind ≠ .eof) :
    (numberWithUnit number).Progresses parser := by
  refine bind (ite (fun _ => ?_) fun _ => ?_)
  · exact bind_left (advance_progresses notEnd)
  · exact bind_left (advance_progresses notEnd)

theorem marks_pos (token : Token) (rest : List Token)
    (mark : Parser.isSign token || token.kind == .dot) : 0 < Span.marks (token :: rest) := by
  simp [Span.marks, Span.before, mark]

theorem marks_eq_zero (token : Token) (rest : List Token) (number : token.kind = .number) :
    Span.marks (token :: rest) = 0 := by
  simp [Span.marks, Span.before, Parser.isSign, number]

theorem numeric_progresses_of_number (number : parser.current.kind = .number) :
    numeric.Progresses parser := by
  obtain ⟨rest, split⟩ := Parser.ahead_eq_cons (kind_ne_eof_of_eq number nofun)
  have none : Span.marks parser.ahead = 0 := by rw [split, marks_eq_zero _ _ number]
  have same : (take Span.marks parser).2 = parser := by
    change parser.skip (Span.marks parser.ahead) = parser
    rw [none]
    rfl
  refine bind_right ?_
  rw [same]
  refine bind (ite (fun _ => ?_) fun other => absurd number other)
  exact bind_left (numberWithUnit_progresses (kind_ne_eof_of_eq number nofun))

theorem numeric_progresses_of_mark
    (mark : Parser.isSign parser.current || parser.current.kind == .dot) :
    numeric.Progresses parser := by
  have notEnd : parser.current.kind ≠ .eof := by
    intro ended
    simp [Parser.isSign, ended] at mark
  exact bind_left (take_progresses notEnd fun rest => marks_pos _ rest mark)

theorem droppedValue_progresses (notEnd : parser.current.kind ≠ .eof) :
    droppedValue.Progresses parser :=
  bind (bind_left (advance_progresses notEnd))

theorem valueWith_progresses {arguments : Reading (List Value)}
    (notEnd : parser.current.kind ≠ .eof) : (valueWith arguments).Progresses parser := by
  have plain : (some <$> plainValue).Progresses parser := map (tokenValue_progresses notEnd)
  have marked (isMark : Parser.isSign parser.current || parser.current.kind == .dot) :
      (some <$> markValue).Progresses parser :=
    map (bind (ite (fun _ => map (numeric_progresses_of_mark isMark)) fun _ => plain))
  have called : (callWith arguments).Progresses parser :=
    bind (bind_left (advance_progresses notEnd))
  refine current ?_
  split
  next number => exact map (map (numeric_progresses_of_number number))
  next minus => exact marked (by simp [Parser.isSign, minus])
  next plus => exact marked (by simp [Parser.isSign, plus])
  next dot => exact marked (by simp [dot])
  next => exact map (bind_right (ite (fun _ => called) fun _ => plain))
  next => exact map (tokenValue_progresses notEnd)
  next => exact map (tokenValue_progresses notEnd)
  next => exact map (bind_left (advance_progresses notEnd))
  next => exact map (bind (bind_left (advance_progresses notEnd)))
  next => exact droppedValue_progresses notEnd
  next => exact droppedValue_progresses notEnd
  next => exact droppedValue_progresses notEnd
  next ended => exact absurd ended notEnd
  next => exact plain

theorem value_progresses (notEnd : parser.current.kind ≠ .eof) : (value room).Progresses parser :=
  valueWith_progresses notEnd

theorem call_progresses (notEnd : parser.current.kind ≠ .eof) : (call room).Progresses parser :=
  bind (bind_left (advance_progresses notEnd))

theorem separatedValue_progresses (notEnd : parser.current.kind ≠ .eof) :
    (separatedValue (value room)).Progresses parser := by
  refine bind (ite (fun _ => ?_) fun _ => ?_)
  · exact bind_left (advance_progresses notEnd)
  · exact bind_left (value_progresses notEnd)

theorem separatedValue_advances : Advances endsArguments (separatedValue (value room)) := by
  intro parser going
  have notEnd : parser.current.kind ≠ .eof := kind_ne_of_going (fun _ _ => rfl) going
  exact separatedValue_progresses notEnd

end Values

section Declarations

theorem skipDeclaration_progresses (notEnd : parser.current.kind ≠ .eof)
    (notClosing : parser.current.kind ≠ .closeBrace) : skipDeclaration.Progresses parser := by
  refine skip_progresses notEnd fun rest => ?_
  unfold Span.declaration
  split
  next ended => exact absurd ended notEnd
  next closing => exact absurd closing notClosing
  next => exact Nat.one_pos
  next => exact Nat.succ_pos _

theorem declarationPart_advances :
    Advances endsDeclaration (declarationPart (value room)) := by
  intro parser going
  have notEnd : parser.current.kind ≠ .eof := kind_ne_of_going (fun _ _ => rfl) going
  refine bind (ite (fun _ => ?_) fun _ => ?_)
  · exact bind_left (advance_progresses notEnd)
  · exact bind_left (separatedValue_progresses notEnd)

theorem declaration_progresses (name : parser.current.kind = .ident) :
    (declaration room).Progresses parser := by
  refine bind (ite (fun _ => ?_) fun other => absurd name other)
  exact bind_left (advance_progresses (kind_ne_eof_of_eq name nofun))

/-- What the tokens of an open block are not: a closing brace or the end. -/
theorem kind_ne_of_endsBlock {token : Token} (going : endsBlock token = false) :
    token.kind ≠ .closeBrace ∧ token.kind ≠ .eof :=
  ⟨kind_ne_of_going (fun _ _ => rfl) going, kind_ne_of_going (fun _ _ => rfl) going⟩

theorem brokenDeclaration_progresses (going : endsBlock parser.current = false) :
    brokenDeclaration.Progresses parser := by
  obtain ⟨notClosing, notEnd⟩ := kind_ne_of_endsBlock going
  exact bind (bind_left (skipDeclaration_progresses notEnd notClosing))

theorem blockDeclaration_advances : Advances endsBlock (blockDeclaration room) := by
  intro parser going
  obtain ⟨notClosing, notEnd⟩ := kind_ne_of_endsBlock going
  refine bind (ite (fun _ => ?_) fun _ => ite (fun name => ?_) fun _ => ?_)
  · exact bind_left (advance_progresses notEnd)
  · exact bind_left (declaration_progresses name)
  · exact bind (bind_left (skipDeclaration_progresses notEnd notClosing))

theorem blockWith_progresses {prelude : String} {body : Reading α}
    (opening : parser.current.kind = .openBrace) : (blockWith prelude body).Progresses parser := by
  refine bind_left (bind_left (currentIs (ite (fun _ => ?_) fun other => ?_)))
  · exact bind_left (advance_progresses (kind_ne_eof_of_eq opening nofun))
  · exact absurd (currentIs_iff.2 opening) other

end Declarations

section Conditions

theorem kind_ne_eof_of_isStructural {token : Token} (going : token.isStructural = false) :
    token.kind ≠ .eof :=
  kind_ne_of_going (fun _ _ => rfl) going

theorem supportsValue_advances :
    Advances endsSupportsDeclaration (supportsValue room) := by
  intro parser going
  have notEnd : parser.current.kind ≠ .eof := kind_ne_of_going (fun _ _ => rfl) going
  refine bind (ite (fun _ => ?_) fun _ => separatedValue_progresses notEnd)
  exact bind_left (tokenValue_progresses notEnd)

theorem supportsGroup_progresses (opening : parser.current.kind = .openParen) :
    (supportsGroup room).Progresses parser := by
  have forward := advance_progresses (kind_ne_eof_of_eq opening nofun)
  cases room with
  | zero => exact bind (bind_left forward)
  | succ room => exact bind_left forward

theorem dropSupportsToken_progresses (notEnd : parser.current.kind ≠ .eof) :
    dropSupportsToken.Progresses parser :=
  bind (bind_left (advance_progresses notEnd))

theorem supportsName_progresses {group : Reading (Option SupportsCondition)} {token : Token}
    (notEnd : parser.current.kind ≠ .eof) : (supportsName room group token).Progresses parser := by
  have forward := advance_progresses notEnd
  refine ite (fun _ => ?_) fun _ => ite (fun _ => ?_) fun _ => ?_
  · exact bind_left (bind_left forward)
  · exact bind_left (bind_left forward)
  · apply Progresses.bind
    apply Progresses.ite
    · intro _
      exact bind_left (bind (bind_left forward))
    intro _
    apply Progresses.bind
    apply Progresses.ite
    · intro _
      exact bind_left (bind (bind_left forward))
    · intro _
      exact dropSupportsToken_progresses notEnd

theorem supportsPart_advances (terminator : Kind) :
    Advances (endsSupports terminator) (supportsPart room (supportsGroup room)) := by
  intro parser going
  have notEnd : parser.current.kind ≠ .eof :=
    kind_ne_of_going (fun _ _ => Bool.or_true _) going
  refine current ?_
  split
  next => exact bind_left (advance_progresses notEnd)
  next opening => exact bind_left (supportsGroup_progresses opening)
  next => exact supportsName_progresses notEnd
  next => exact dropSupportsToken_progresses notEnd

theorem take_before (stop : Token → Bool) (tokens : List Token) :
    tokens.take (Span.before stop tokens) = tokens.takeWhile fun token => !stop token :=
  (List.prefix_iff_eq_take.1 (List.takeWhile_prefix _)).symm

theorem drop_before (stop : Token → Bool) (tokens : List Token) :
    tokens.drop (Span.before stop tokens) = tokens.dropWhile fun token => !stop token := by
  induction tokens with
  | nil => rfl
  | cons token rest ih =>
    unfold Span.before at ih ⊢
    cases holds : stop token with
    | true => simp [holds]
    | false => simpa [holds] using ih

/-- Past the tokens before a stop set stands one of the set. -/
theorem skip_before_stops {stop : Token → Bool}
    (ends : ∀ position, stop (Token.endOfInput position) = true) :
    stop (skip (Span.before stop) parser).2.current = true := by
  have first := List.head?_dropWhile_not (fun token => !stop token) parser.ahead
  change stop (((parser.ahead.drop (Span.before stop parser.ahead))[0]?).getD _) = true
  rw [drop_before, ← List.head?_eq_getElem?]
  cases head : (parser.ahead.dropWhile fun token => !stop token).head? with
  | none => exact ends _
  | some token => simpa [head] using first

theorem dropRest_stops {stop : Token → Bool} {place : String}
    (ends : ∀ position, stop (Token.endOfInput position) = true) :
    stop (dropRest stop place parser).2.current = true := by
  have run : (dropRest stop place parser).2 =
      if stop parser.current then parser
      else (skip (Span.before stop) (parser.record (.misplaced place) parser.current)).2 := by
    change ((if stop parser.current then _ else _ : Reading Unit) parser).2 = _
    split <;> rfl
  rw [run]
  split
  next stopped => exact stopped
  next => exact skip_before_stops ends

theorem endsExpression_of_endOfInput (position : Position) :
    endsExpression (Token.endOfInput position) = true := rfl

theorem mediaExpression_progresses (going : endsExpression parser.current = false) :
    mediaExpression.Progresses parser :=
  of_stop going (dropRest_stops endsExpression_of_endOfInput)

theorem mediaQuery_progresses (going : endsExpression parser.current = false) :
    mediaQuery.Progresses parser := by
  apply Progresses.bind
  apply Progresses.current
  apply Progresses.ite
  · intro structural
    simp [endsExpression, structural] at going
  · intro _
    exact bind_left (mediaExpression_progresses going)

theorem nextExpression_advances :
    Advances (fun token => token.kind != .comma) nextExpression := by
  intro parser going
  have comma : parser.current.kind = .comma := by simpa using going
  exact bind_left (advance_progresses (kind_ne_eof_of_eq comma nofun))

theorem kind_of_isWord {token : Token} {word : Bytes} (spells : token.isWord word = true) :
    token.kind = .ident := by
  have both := Bool.and_eq_true_iff.1 spells
  exact beq_iff_eq.1 both.1

theorem conjunct_cases {token : Token} (going : (!isConjunct token) = false) :
    token.kind = .openParen ∨ token.isWord Word.andWord = true := by
  have starts : isConjunct token = true := by simpa only [Bool.not_eq_false'] using going
  exact (Bool.or_eq_true_iff.1 starts).imp_left beq_iff_eq.1

/-- A loop over conditions joined by `and` advances if a condition takes its parenthesis. -/
theorem conjunct_advances {condition : Reading (List α)}
    (progress : ∀ parser : Parser, parser.current.kind = .openParen → condition.Progresses parser) :
    Advances (fun token => !isConjunct token) (conjunct condition) := by
  intro parser going
  refine currentIs (ite (fun opening => ?_) fun other => ?_)
  · exact bind_left (progress parser (currentIs_iff.1 opening))
  · rcases conjunct_cases going with opening | word
    · exact absurd (currentIs_iff.2 opening) other
    · have name := kind_ne_eof_of_eq (kind_of_isWord word) nofun
      exact bind_left (bind_left (advance_progresses name))

theorem mediaFeature_progresses (opening : parser.current.kind = .openParen) :
    mediaFeature.Progresses parser :=
  bind_left (advance_progresses (kind_ne_eof_of_eq opening nofun))

theorem containerCondition_progresses (opening : parser.current.kind = .openParen) :
    (containerCondition room).Progresses parser := by
  have forward := advance_progresses (kind_ne_eof_of_eq opening nofun)
  cases room with
  | zero => exact bind (bind_left forward)
  | succ room => exact bind_left forward

theorem containerPart_advances :
    Advances endsContainerGroup (containerPart (containerCondition room)) := by
  intro parser going
  have notEnd : parser.current.kind ≠ .eof := kind_ne_of_going (fun _ _ => rfl) going
  have forward := advance_progresses notEnd
  refine bind_left (current ?_)
  split
  next => exact ite (fun _ => bind_left forward) fun _ => bind_left forward
  next opening => exact map (containerCondition_progresses opening)
  next => exact bind (bind_left forward)

end Conditions

section Statements

/-- An import goes on until a structural token, so each of its clauses takes a token. -/
theorem importClause_progresses {clauses : ImportClauses}
    (going : parser.current.isStructural = false) :
    (importClause room clauses).Progresses parser := by
  have notEnd := kind_ne_eof_of_isStructural going
  have forward := advance_progresses notEnd
  have layer : (layerClause room).Progresses parser :=
    bind (ite (fun _ => call_progresses notEnd) fun _ => tokenValue_progresses notEnd)
  apply Progresses.current
  apply Progresses.ite
  · intro _
    exact bind_left layer
  intro _
  apply Progresses.bind
  apply Progresses.ite
  · intro _
    exact bind_left (bind_left forward)
  intro _
  apply Progresses.ite
  · intro query
    have notComma : parser.current.kind ≠ .comma := by
      intro comma
      simp [comma] at query
    have starts : endsExpression parser.current = false := by
      simp [endsExpression, notComma, going]
    exact bind_left (mediaQuery_progresses starts)
  · intro _
    exact bind (bind_left forward)

theorem separatedClause_advances (clauses : ImportClauses) :
    Advances Token.isStructural (separatedClause room clauses) :=
  fun _ going => bind_left (importClause_progresses going)

end Statements

section DeclarationRules

theorem stopSelector_advances : Advances Token.isStructural stopSelector := by
  intro parser going
  have forward := advance_progresses (kind_ne_eof_of_isStructural going)
  apply Progresses.current
  apply Progresses.ite
  · intro _
    exact bind_left forward
  intro _
  apply Progresses.ite
  · intro _
    exact bind_left forward
  intro _
  apply Progresses.ite
  · intro number
    exact bind_left (numeric_progresses_of_number number)
  intro _
  apply Progresses.bind
  apply Progresses.ite
  · intro mark
    refine bind_left (numeric_progresses_of_mark ?_)
    rcases Bool.or_eq_true_iff.1 (Bool.and_eq_true_iff.1 mark).1 with dot | plus
    · rw [dot, Bool.or_true]
    · rw [Parser.isSign, plus, Bool.or_true, Bool.true_or]
  · intro _
    exact bind (bind_left forward)

theorem stopBlock_progresses {stops : List Bytes} (opening : parser.current.kind = .openBrace) :
    (stopBlock room stops).Progresses parser :=
  bind (bind_left (blockWith_progresses opening))

theorem keyframeStop_progresses (going : endsBlock parser.current = false)
    (notSemicolon : parser.current.kind ≠ .semicolon) :
    (keyframeStop room).Progresses parser := by
  obtain ⟨notClosing, notEnd⟩ := kind_ne_of_endsBlock going
  by_cases opening : parser.current.kind = .openBrace
  · apply Progresses.bind
    apply Progresses.currentIs
    rw [if_pos (currentIs_iff.2 opening)]
    exact stopBlock_progresses opening
  · have going : parser.current.isStructural = false := by
      simp [Token.isStructural, opening, notClosing, notSemicolon, notEnd]
    exact bind_left (collect_progresses going (stopSelector_advances _ going))

theorem keyframesMember_advances : Advances endsBlock (keyframesMember room) := by
  intro parser going
  refine current (ite (fun _ => ?_) fun other => ?_)
  · exact bind_left (advance_progresses (kind_ne_of_endsBlock going).2)
  · exact bind_left (keyframeStop_progresses going fun semicolon => other (.inr semicolon))

theorem family_advances : Advances endsFamilies family := by
  intro parser going
  have notEnd : parser.current.kind ≠ .eof := kind_ne_of_going (fun _ _ => rfl) going
  have forward := advance_progresses notEnd
  refine current ?_
  split <;> exact bind_left forward

theorem featureMember_advances : Advances endsBlock (featureMember room) := by
  intro parser going
  have forward := advance_progresses (kind_ne_of_endsBlock going).2
  refine current ?_
  split
  next => exact bind_left forward
  next => exact bind_left forward
  next => exact bind_left (bind_left forward)
  next => exact bind (bind_left forward)

end DeclarationRules

section Rules

theorem selectorAtom_advances : Advances Token.isStructural selectorAtom := by
  intro parser going
  have forward := advance_progresses (kind_ne_eof_of_isStructural going)
  refine current ?_
  split
  next => exact bind_left forward
  next => exact bind_left forward
  next => exact bind_left forward
  next => exact bind_left forward
  next => exact bind_left forward
  next => exact bind_left forward
  next => exact bind_left (bind_left forward)
  next => exact bind_left forward
  next => exact bind_left forward
  next => exact bind_left forward
  next => exact bind_left forward
  next => exact bind_left forward
  next => exact bind_left forward
  next => exact bind (bind_left forward)

theorem isStructural_of_startsRuleSet {token : Token} (starts : startsRuleSet token.kind = true) :
    token.isStructural = false := by
  unfold Token.isStructural
  cases kind : token.kind <;> simp_all [startsRuleSet]

theorem ruleSetWith_progresses {block : Reading (Option (List Node))}
    (starts : startsRuleSet parser.current.kind = true) :
    (ruleSetWith block).Progresses parser := by
  have going := isStructural_of_startsRuleSet starts
  exact bind_left (collect_progresses going (selectorAtom_advances _ going))

theorem ruleSet_progresses (starts : startsRuleSet parser.current.kind = true) :
    (ruleSet room).Progresses parser := by
  cases room with
  | zero => exact ruleSetWith_progresses starts
  | succ room => exact ruleSetWith_progresses starts

theorem atRule_progresses (mark : parser.current.kind = .atSign) :
    (atRule room).Progresses parser := by
  have notEnd := kind_ne_eof_of_eq mark nofun
  cases room with
  | zero =>
    refine bind (bind_left (skip_progresses notEnd fun rest => ?_))
    simp [Span.atRule, mark]
  | succ room => exact peek (bind_left (advance_progresses notEnd))

theorem comment_progresses (notEnd : parser.current.kind ≠ .eof) : comment.Progresses parser :=
  current (bind_left (advance_progresses notEnd))

theorem dropToken_progresses {place : String} (notEnd : parser.current.kind ≠ .eof) :
    (dropToken place).Progresses parser :=
  bind (bind_left (advance_progresses notEnd))

theorem styleMember_advances {place : String} {other : Reading (List Node)}
    (progress : Advances endsBlock other) :
    Advances endsBlock (styleMember room (ruleSet room) (atRule room) place other) := by
  intro parser going
  have notEnd := (kind_ne_of_endsBlock going).2
  refine current ?_
  split
  next => exact bind_left (advance_progresses notEnd)
  next => exact map (comment_progresses notEnd)
  next name =>
    refine peek (ite (fun _ => map (ruleSet_progresses ?_)) fun _ => ?_)
    · simp [name, startsRuleSet]
    · exact bind_left (declaration_progresses name)
  next mark => exact bind (bind_left (atRule_progresses mark))
  next => exact ite (fun starts => map (ruleSet_progresses starts)) fun _ => progress _ going

theorem ruleMember_advances (place : String) :
    Advances endsBlock (ruleMember (ruleSet room) (atRule room) place) := by
  intro parser going
  have notEnd := (kind_ne_of_endsBlock going).2
  refine current ?_
  split
  next => exact bind_left (advance_progresses notEnd)
  next => exact map (comment_progresses notEnd)
  next mark => exact map (atRule_progresses mark)
  next =>
    exact ite (fun starts => map (ruleSet_progresses starts)) fun _ => dropToken_progresses notEnd

theorem layerPart_advances : Advances Token.isStructural layerPart := by
  intro parser going
  have forward := advance_progresses (kind_ne_eof_of_isStructural going)
  refine current ?_
  split
  next => exact bind_left forward
  next => exact bind_left forward
  next => exact current (bind_left forward)
  next => exact bind (bind_left forward)

theorem topMember_advances : Advances (fun token => token.kind == .eof) (topMember room) := by
  intro parser going
  have notEnd : parser.current.kind ≠ .eof := by simpa using going
  refine current ?_
  split
  next => exact map (comment_progresses notEnd)
  next mark => exact map (atRule_progresses mark)
  next =>
    refine ite (fun starts => map (ruleSet_progresses starts)) fun _ => ?_
    exact bind (bind_left (advance_progresses notEnd))

end Rules

/-- Where the productions that loops are made of take a token, with any room left for blocks and
groups. -/
structure ProductionsProgress (room : Nat) : Prop where
  ruleSet : ∀ parser, startsRuleSet parser.current.kind = true → (ruleSet room).Progresses parser
  atRule : ∀ parser, parser.current.kind = .atSign → (atRule room).Progresses parser
  declaration : ∀ parser, parser.current.kind = .ident → (declaration room).Progresses parser
  value : ∀ parser, parser.current.kind ≠ .eof → (value room).Progresses parser
  keyframeStop : ∀ parser, endsBlock parser.current = false →
    parser.current.kind ≠ .semicolon → (keyframeStop room).Progresses parser
  supportsGroup : ∀ parser, parser.current.kind = .openParen →
    (supportsGroup room).Progresses parser
  containerCondition : ∀ parser, parser.current.kind = .openParen →
    (containerCondition room).Progresses parser
  mediaQuery : ∀ parser, endsExpression parser.current = false → mediaQuery.Progresses parser
  skipDeclaration : ∀ parser, parser.current.kind ≠ .eof → parser.current.kind ≠ .closeBrace →
    skipDeclaration.Progresses parser

/-- What each loop repeats takes a token outside the stop set of the loop. -/
structure LoopsAdvance (room : Nat) : Prop where
  arguments : Advances endsArguments (separatedValue (value room))
  declaration : Advances endsDeclaration (declarationPart (value room))
  declarations : Advances endsBlock (blockDeclaration room)
  selector : Advances Token.isStructural selectorAtom
  keyframeSelector : Advances Token.isStructural stopSelector
  keyframes : Advances endsBlock (keyframesMember room)
  families : Advances endsFamilies family
  featureBlocks : Advances endsBlock (featureMember room)
  supportsDeclaration : Advances endsSupportsDeclaration (supportsValue room)
  supports : ∀ terminator,
    Advances (endsSupports terminator) (supportsPart room (supportsGroup room))
  mediaQuery : Advances (fun token => token.kind != .comma) nextExpression
  mediaFeatures : Advances (fun token => !isConjunct token)
    (conjunct (Option.toList <$> mediaFeature))
  containerQuery : Advances (fun token => !isConjunct token)
    (conjunct do return [← containerCondition room])
  containerGroup : Advances endsContainerGroup (containerPart (containerCondition room))
  importClauses : ∀ clauses, Advances Token.isStructural (separatedClause room clauses)
  ruleSetBody : Advances endsBlock
    (styleMember room (ruleSet room) (atRule room) "selector" brokenDeclaration)
  containerBody : Advances endsBlock (styleMember room (ruleSet room) (atRule room)
    "container rule" (dropToken "container rule"))
  nestedRules : ∀ place, Advances endsBlock (ruleMember (ruleSet room) (atRule room) place)
  layerNames : Advances Token.isStructural layerPart
  stylesheet : Advances (fun token => token.kind == .eof) (topMember room)

theorem productionsProgress (room : Nat) : ProductionsProgress room where
  ruleSet _ := ruleSet_progresses
  atRule _ := atRule_progresses
  declaration _ := declaration_progresses
  value _ := value_progresses
  keyframeStop _ := keyframeStop_progresses
  supportsGroup _ := supportsGroup_progresses
  containerCondition _ := containerCondition_progresses
  mediaQuery _ := mediaQuery_progresses
  skipDeclaration _ := skipDeclaration_progresses

theorem loopsAdvance (room : Nat) : LoopsAdvance room where
  arguments := separatedValue_advances
  declaration := declarationPart_advances
  declarations := blockDeclaration_advances
  selector := selectorAtom_advances
  keyframeSelector := stopSelector_advances
  keyframes := keyframesMember_advances
  families := family_advances
  featureBlocks := featureMember_advances
  supportsDeclaration := supportsValue_advances
  supports := supportsPart_advances
  mediaQuery := nextExpression_advances
  mediaFeatures := conjunct_advances fun _ opening => map (mediaFeature_progresses opening)
  containerQuery := conjunct_advances fun _ opening =>
    bind_left (containerCondition_progresses opening)
  containerGroup := containerPart_advances
  importClauses := separatedClause_advances
  ruleSetBody := styleMember_advances fun _ => brokenDeclaration_progresses
  containerBody := styleMember_advances fun _ going =>
    dropToken_progresses (kind_ne_of_endsBlock going).2
  nestedRules := ruleMember_advances
  layerNames := layerPart_advances
  stylesheet := topMember_advances

theorem stylesheet_atEnd (room : Nat) (parser : Parser) :
    (stylesheet room parser).2.atEnd = true :=
  collect_stops topMember_advances parser

/-- A parse ends at the end of the input, because no loop on the way can stand still. -/
theorem stylesheet_reaches_end (settings : Settings) (tokens : List Token) :
    (stylesheet nestingLimit (Parser.ofTokens settings tokens)).2.atEnd = true ∧
      ∀ room, ProductionsProgress room ∧ LoopsAdvance room :=
  ⟨stylesheet_atEnd _ _, fun room => ⟨productionsProgress room, loopsAdvance room⟩⟩

end CssSyntax.Grammar

import CssSyntax.Proofs.Relocation.Prelude

/-! Selectors and rules read from relocated tokens. -/

namespace CssSyntax.Grammar

open Reading Relocation Links

variable {relocation : Relocation} {parser : Parser} {room : Nat}

section Statements

theorem startsUrl_eq (covers : relocation.Covers parser) :
    startsUrl (relocation.parser parser) = startsUrl parser := by
  unfold startsUrl
  rw [current_eq covers]
  by_cases word : parser.current.isWord Word.urlWord = true
  · rw [nextIs_eq covers (Token.seals_of_kind (kind_of_isWord word) rfl)]
    rfl
  · rw [token_isWord, Bool.eq_false_iff.2 word, Bool.false_and, Bool.false_and]
    rfl

theorem url_carries : relocation.Carries (url room) parser :=
  bind skipComments (look (fun _ => startsUrl_eq) (ite (fun _ => value_carries) fun _ => pure))

theorem layerClause_carries (plain : parser.current.seals = false) :
    relocation.Carries (layerClause room) parser :=
  nextIs plain (ite (fun _ => call_carries) fun _ => tokenValue_carries)

theorem supportsClause_carries : relocation.Carries (supportsClause room) parser := by
  refine bind advance (bind advance (bind (supportsCondition_carries .closeParen) ?_))
  exact bind expect pure

theorem keepFirst_links {α : Type} {kept : Option α} {clause : α} {token : Token} :
    relocation.Links (keepFirst kept clause token)
      (keepFirst kept clause (relocation.token token)) parser := by
  cases kept with
  | none => exact pure
  | some first => exact bind reportAt pure

theorem importClause_carries {clauses : ImportClauses}
    (going : parser.current.isStructural = false) :
    relocation.Carries (importClause room clauses) parser := by
  have plain : parser.current.seals = false :=
    Bool.eq_false_iff.2 fun seals =>
      Bool.false_ne_true (going.symm.trans (Token.isStructural_of_seals seals))
  refine currentToken (ite (fun _ => ?_) fun _ => nextIs plain (ite (fun _ => ?_) fun _ =>
    ite (fun _ => ?_) fun _ => bind report (bind advance pure)))
  · exact bind (layerClause_carries plain) (returning keepFirst_links)
  · exact bind supportsClause_carries (returning keepFirst_links)
  · exact returning mediaQuery_carries

theorem importRule_carries : relocation.Carries (importRule room) parser := by
  refine bind url_carries ?_
  split
  next => exact bind report (bind skipDeclaration pure)
  next =>
    refine bind skipComments (bind (iterate separatedClause_advances rfl ?_ _ _) (bind expect pure))
    exact fun _ _ going => bind (importClause_carries going) (bind skipComments pure)

theorem charset_carries : relocation.Carries charset parser := by
  refine current rfl (ite (fun _ => ?_) fun _ => bind report (bind skipDeclaration pure))
  exact bind advance (bind expect pure)

theorem namespaceLabel_carries : relocation.Carries namespaceLabel parser := by
  refine current rfl (look (fun _ => startsUrl_eq) (ite (fun _ => bind advance pure) fun _ => pure))

theorem namespaceRule_carries : relocation.Carries (namespaceRule room) parser := by
  refine bind namespaceLabel_carries (bind url_carries ?_)
  split
  next => exact bind report (bind skipDeclaration pure)
  next => exact bind skipComments (bind expect pure)

end Statements

section DeclarationRules

theorem declarationBlock_carries {place : String} :
    relocation.Carries (declarationBlock room place) parser :=
  blockWith_carries fun _ => blockBody_carries blockDeclaration_advances fun _ _ =>
    blockDeclaration_carries

theorem fontFace_carries : relocation.Carries (fontFace room) parser :=
  returning declarationBlock_carries

theorem counterStyle_carries : relocation.Carries (counterStyle room) parser := by
  refine current rfl (ite (fun _ => ?_) fun _ => bind report (bind skipBlock pure))
  exact bind advance (bind skipComments (returning declarationBlock_carries))

theorem colorProfile_carries : relocation.Carries (colorProfile room) parser := by
  refine current rfl ?_
  split
  next => exact bind advance (bind skipComments (returning declarationBlock_carries))
  next => exact bind report (bind skipBlock pure)

theorem pageSelector_map {tokens : List Token} (keeps : relocation.Keeps tokens) :
    pageSelector (tokens.map relocation.token) = pageSelector tokens := by
  unfold pageSelector
  rw [verbatim_map keeps, kept_map, List.isEmpty_map]

theorem page_carries : relocation.Carries (page room) parser := by
  refine take (Span.before_settles _)
    (fun _ => Span.before_map relocation.token (fun _ => rfl) _) fun keeps => ?_
  rw [pageSelector_map keeps]
  exact returning declarationBlock_carries

theorem viewport_carries {name : Bytes} : relocation.Carries (viewport room name) parser :=
  returning declarationBlock_carries

theorem stopSelector_carries : relocation.Carries stopSelector parser := by
  refine current rfl (ite (fun _ => bind advance pure) fun _ => ite (fun _ => bind advance pure)
    fun _ => ite (fun _ => returning numeric_carries) fun _ => look startsNumeric_eq
      (ite (fun _ => returning numeric_carries) fun _ => bind report (bind advance pure)))

theorem stopBlock_carries {stops : List Bytes} :
    relocation.Carries (stopBlock room stops) parser :=
  bind reportIf (returning declarationBlock_carries)

theorem keyframeStop_carries : relocation.Carries (keyframeStop room) parser := by
  refine bind (collect stopSelector_advances rfl (fun _ _ => stopSelector_carries) _) ?_
  exact currentIs (ite (fun _ => stopBlock_carries) fun _ => bind report pure)

theorem keyframesMember_carries : relocation.Carries (keyframesMember room) parser :=
  current rfl (ite (fun _ => bind advance pure) fun _ => returning keyframeStop_carries)

theorem keyframes_carries {webkit : Bool} :
    relocation.Carries (keyframes room webkit) parser := by
  refine current rfl ?_
  split
  next =>
    refine bind advance (bind skipComments (blockWith_carries fun _ => map ?_))
    exact blockBody_carries keyframesMember_advances fun _ _ => keyframesMember_carries
  next => exact bind report (bind skipBlock pure)

theorem familyWords_carries : relocation.Carries familyWords parser := by
  refine take (Span.before_settles _)
    (fun _ => Span.before_map relocation.token (fun _ => rfl) _) fun _ => ?_
  rw [List.flatMap_map]
  exact pure

theorem family_carries : relocation.Carries family parser := by
  refine current rfl ?_
  split
  next => exact bind advance pure
  next => exact bind advance (returning familyWords_carries)
  next => exact bind advance pure

theorem featureBlock_carries : relocation.Carries (featureBlock room) parser := by
  refine bind advance (current rfl (ite (fun _ => ?_) fun _ => bind report (bind skipAtRule pure)))
  exact bind advance (bind skipComments (returning declarationBlock_carries))

theorem featureMember_carries : relocation.Carries (featureMember room) parser := by
  refine current rfl ?_
  split
  next => exact bind advance pure
  next => exact bind advance pure
  next => exact returning featureBlock_carries
  next => exact bind report (bind advance pure)

theorem featureBody_carries : relocation.Carries (featureBody room) parser :=
  blockBody_carries featureMember_advances fun _ _ => featureMember_carries

theorem fontFeatureValues_carries : relocation.Carries (fontFeatureValues room) parser := by
  refine bind (collect family_advances rfl (fun _ _ => family_carries) _) ?_
  refine currentIs (ite (fun _ => ?_) fun _ => bind report (bind skipBlock pure))
  exact bind reportIf (bind advance (returning featureBody_carries))

end DeclarationRules

section Selectors

theorem markedName_carries {mark : Token} {kind : SelectorKind} {place : String} :
    relocation.Carries (markedName mark kind place) parser :=
  bind advance (current rfl (ite (fun _ => bind advance pure) fun _ => bind report pure))

theorem attributeAtom_carries : relocation.Carries attributeAtom parser := by
  refine bind advance (take (Span.before_settles _)
    (fun _ => Span.before_map relocation.token (fun _ => rfl) _) ?_)
  intro keeps
  rw [verbatim_map keeps]
  exact bind expect pure

theorem verbatim_links {tokens : List Token} (keeps : relocation.Keeps tokens) :
    relocation.Links (Pure.pure (verbatim tokens))
      (Pure.pure (verbatim (tokens.map relocation.token))) parser := by
  rw [verbatim_map keeps]
  exact pure

/-- The parentheses are kept with the argument, so it matters where they are too. -/
theorem pseudoArgument_carries (opens : parser.current.kind = .openParen) :
    relocation.Carries pseudoArgument parser := by
  intro keeps covers
  obtain ⟨rest, split⟩ := Parser.ahead_eq_cons (kind_ne_eof_of_eq opens nofun)
  have after : (Reading.advance parser).2.ahead = rest := by
    change parser.ahead.drop 1 = rest
    rw [split]
    rfl
  refine (currentToken (bind advance (take (Span.inside_settles _ 0)
    (fun _ => Span.inside_map token_kind (fun _ => rfl) 0 _) fun _ => currentToken ?_)) :
      relocation.Carries pseudoArgument parser) keeps covers
  rw [split] at keeps
  rw [expect_bind, expect_bind, after]
  generalize within : Span.inside (fun _ => false) 0 rest = count
  refine currentToken (ite (fun closes => bind advance ?_) fun _ => bind report ?_)
  · let last := (Reading.advance parser).2.skip count
    obtain ⟨more, tail⟩ := Parser.ahead_eq_cons (kind_ne_eof_of_eq closes nofun)
    have dropped : rest.drop count = last.current :: more := by
      rw [← tail, ← after]
      rfl
    have part : (parser.current :: (rest.take count ++ [last.current])).Sublist
        (parser.current :: rest) := by
      refine List.Sublist.cons_cons _ ?_
      conv => rhs; rw [← List.take_append_drop count rest, dropped]
      exact List.Sublist.append_left (List.Sublist.cons_cons _ (List.nil_sublist _)) _
    simpa using verbatim_links (keeps.sublist part)
  · have part : (parser.current :: rest.take count).Sublist (parser.current :: rest) :=
      List.Sublist.cons_cons _ (List.take_sublist count rest)
    simpa using verbatim_links (keeps.sublist part)

theorem optionalArgument_carries : relocation.Carries optionalArgument parser :=
  currentIs (ite (fun opens => pseudoArgument_carries (currentIs_iff.1 opens)) fun _ => pure)

theorem pseudoAtom_carries {colons : Token} : relocation.Carries (pseudoAtom colons) parser := by
  refine bind advance (current rfl (ite (fun _ => ?_) fun _ => bind report pure))
  exact bind advance (returning optionalArgument_carries)

theorem tokenAtom_carries {kind : SelectorKind} {token : Token} :
    relocation.Carries (tokenAtom kind token) parser :=
  bind advance pure

theorem selectorAtom_carries : relocation.Carries selectorAtom parser := by
  refine current rfl ?_
  split
  next => exact bind advance pure
  next => exact tokenAtom_carries
  next => exact tokenAtom_carries
  next => exact markedName_carries
  next => exact markedName_carries
  next => exact tokenAtom_carries
  next => exact returning attributeAtom_carries
  next => exact pseudoAtom_carries
  next => exact pseudoAtom_carries
  next => exact tokenAtom_carries
  next => exact tokenAtom_carries
  next => exact tokenAtom_carries
  next => exact tokenAtom_carries
  next => exact bind report (bind advance pure)

theorem ruleSetWith_carries {block : Reading (Option (List Node))}
    (inner : ∀ parser, relocation.Carries block parser) :
    relocation.Carries (ruleSetWith block) parser := by
  refine bind (collect selectorAtom_advances rfl (fun _ _ => selectorAtom_carries) _) ?_
  exact currentIs (ite (fun _ => returning (inner _)) fun _ => bind report pure)

end Selectors

section Rules

theorem comment_carries : relocation.Carries comment parser :=
  current rfl (bind advance (look (fun _ _ => rfl) pure))

theorem brokenDeclaration_carries : relocation.Carries brokenDeclaration parser :=
  bind report (bind skipDeclaration pure)

theorem dropToken_carries {place : String} : relocation.Carries (dropToken place) parser :=
  bind report (bind advance pure)

theorem layerName_carries : relocation.Carries layerName parser := by
  refine current rfl (bind advance (take Span.innerLayers_settles innerLayers_map fun _ => ?_))
  rw [literals_map]
  exact pure

theorem layerPart_carries : relocation.Carries layerPart parser := by
  refine current rfl ?_
  split
  next => exact bind advance pure
  next => exact bind advance pure
  next => exact layerName_carries
  next => exact bind report (bind advance pure)

theorem namesAtRule_eq (keeps : relocation.Keeps parser.ahead)
    (covers : relocation.Covers parser) (plain : parser.current.seals = false) :
    namesAtRule (relocation.parser parser) = namesAtRule parser := by
  have first : ∀ before < 1, (parser.nth before).seals = false := by
    intro before early
    obtain rfl := Nat.lt_one_iff.1 early
    exact plain
  unfold namesAtRule
  rw [nextIs_eq covers plain, isAdjacent_eq keeps covers first]

theorem atRuleWith_carries {body : Bytes → AtRule → Reading (Option Node)}
    (inner : ∀ name rule parser, relocation.Carries (body name rule) parser)
    (mark : parser.current.kind = .atSign) : relocation.Carries (atRuleWith body) parser := by
  refine look (fun keeps covers => namesAtRule_eq keeps covers (Token.seals_of_kind mark rfl))
    (bind advance (ite (fun _ => ?_) fun _ => bind report (bind skipAtRule pure)))
  refine currentToken (look (fun _ _ => rfl) ?_)
  split
  next => exact bind reportAt (bind advance (bind skipAtRule pure))
  next => exact bind advance (bind skipComments (inner _ _ _))

/-- Rules at one room read the same from relocated tokens. -/
structure RulesCarry (relocation : Relocation) (room : Nat) : Prop where
  ruleSet : ∀ parser, relocation.Carries (ruleSet room) parser
  atRule : ∀ parser, parser.current.kind = .atSign → relocation.Carries (atRule room) parser

section Inner

variable (inner : RulesCarry relocation room)
include inner

theorem styleMember_carries {place : String} {other : Reading (List Node)}
    (others : ∀ parser, relocation.Carries other parser) :
    relocation.Carries (styleMember room (ruleSet room) (atRule room) place other) parser := by
  refine current rfl ?_
  split
  next => exact bind advance pure
  next => exact map comment_carries
  next =>
    refine look (fun _ => blockFollows_eq) (ite (fun _ => map (inner.ruleSet _)) fun _ => ?_)
    exact returning declaration_carries
  next mark => exact bind report (bind (inner.atRule _ ((current_report _ _).symm ▸ mark)) pure)
  next => exact ite (fun _ => map (inner.ruleSet _)) fun _ => others _

theorem ruleSetBody_carries :
    relocation.Carries (ruleSetBody room (ruleSet room) (atRule room)) parser :=
  blockBody_carries (styleMember_advances fun _ => brokenDeclaration_progresses) fun _ _ =>
    styleMember_carries inner fun _ => brokenDeclaration_carries

theorem containerBody_carries :
    relocation.Carries (containerBody room (ruleSet room) (atRule room)) parser := by
  refine blockBody_carries (styleMember_advances fun _ going => ?_) fun _ _ => ?_
  · exact dropToken_progresses (kind_ne_of_endsBlock going).2
  · exact styleMember_carries inner fun _ => dropToken_carries

theorem ruleMember_carries {place : String} :
    relocation.Carries (ruleMember (ruleSet room) (atRule room) place) parser := by
  refine current rfl ?_
  split
  next => exact bind advance pure
  next => exact map comment_carries
  next mark => exact map (inner.atRule _ mark)
  next => exact ite (fun _ => map (inner.ruleSet _)) fun _ => dropToken_carries

theorem nestedRules_carries {place : String} :
    relocation.Carries (nestedRules (ruleSet room) (atRule room) place) parser :=
  blockBody_carries (ruleMember_advances place) fun _ _ => ruleMember_carries inner

theorem media_carries : relocation.Carries (media (ruleSet room) (atRule room)) parser :=
  bind mediaQuery_carries (blockWith_carries fun _ => map (nestedRules_carries inner))

theorem supportsRule_carries :
    relocation.Carries (supportsRule room (ruleSet room) (atRule room)) parser := by
  refine bind (supportsCondition_carries .openBrace) (blockWith_carries fun _ => ?_)
  exact map (nestedRules_carries inner)

theorem container_carries :
    relocation.Carries (container room (ruleSet room) (atRule room)) parser := by
  refine bind containerLabel_carries ?_
  refine bind containerQuery_carries ?_
  refine blockWith_carries fun _ => ?_
  exact map (containerBody_carries inner)

theorem layer_carries : relocation.Carries (layer (ruleSet room) (atRule room)) parser := by
  refine bind (collect layerPart_advances rfl (fun _ _ => layerPart_carries) _) ?_
  refine currentIs (ite (fun _ => ?_) fun _ => currentIs (ite (fun _ => ?_) fun _ => ?_))
  · exact bind reportIf (bind advance pure)
  · exact bind advance (returning (nestedRules_carries inner))
  · exact bind report pure

theorem atRuleBody_carries (name : Bytes) (rule : AtRule) (parser : Parser) :
    relocation.Carries (atRuleBody room (ruleSet room) (atRule room) name rule) parser := by
  cases rule with
  | media => exact media_carries inner
  | keyframes => exact keyframes_carries
  | webkitKeyframes => exact keyframes_carries
  | importRule => exact importRule_carries
  | charset => exact charset_carries
  | fontFace => exact fontFace_carries
  | fontFeatureValues => exact fontFeatureValues_carries
  | colorProfile => exact colorProfile_carries
  | counterStyle => exact counterStyle_carries
  | container => exact container_carries inner
  | supports => exact supportsRule_carries inner
  | layer => exact layer_carries inner
  | page => exact page_carries
  | namespaceRule => exact namespaceRule_carries
  | viewport => exact viewport_carries

end Inner

theorem rulesCarry (relocation : Relocation) (room : Nat) : RulesCarry relocation room := by
  induction room with
  | zero =>
    constructor
    · intro parser
      exact ruleSetWith_carries fun _ => bind report (bind skipBlock pure)
    · intro parser _
      exact bind report (bind skipAtRule pure)
  | succ room inner =>
    constructor
    · intro parser
      exact ruleSetWith_carries fun _ => bind advance (returning (ruleSetBody_carries inner))
    · intro parser mark
      exact atRuleWith_carries (atRuleBody_carries inner) mark

theorem topMember_carries (parser : Parser) : relocation.Carries (topMember room) parser := by
  have inner := rulesCarry relocation room
  refine current rfl ?_
  split
  next => exact map comment_carries
  next mark => exact map (inner.atRule _ mark)
  next => exact ite (fun _ => map (inner.ruleSet _)) fun _ => bind report (bind advance pure)

/-- Nothing in a parse depends on where the tokens are, but the places of its problems. -/
theorem stylesheet_carries (room : Nat) (parser : Parser) :
    relocation.Carries (stylesheet room) parser :=
  returning (collect topMember_advances rfl (fun _ _ => topMember_carries _) _)

end Rules

end CssSyntax.Grammar

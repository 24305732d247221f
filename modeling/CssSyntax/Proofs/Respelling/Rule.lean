import CssSyntax.Proofs.Respelling.Prelude

/-! Rules and whole stylesheets of a source that was written again. -/

namespace CssSyntax.Respelling

open Grammar Links

variable {respelling : Respelling} {parser : Parser} {room : Nat}

/-- What was read of a rule is respelled, and it may be gone if it is a comment. -/
abbrev CarriesRule (respelling : Respelling) (reading : Reading (Option Node)) : Prop :=
  ∀ parser, respelling.Carries respelling.rule? reading parser

/-- A rule that holds no other rules. -/
theorem leaf {node respelled : Node} (same : respelled = node.respell respelling.byte)
    (other : (node.kind == .comment) = false)
    (bare : (node.respell respelling.byte).withoutComments = node.respell respelling.byte) :
    respelling.Links respelling.rule? (Pure.pure (some node)) (Pure.pure (some respelled))
      parser := by
  apply Links.pure
  rw [same]
  exact (node?_of_leaf respelling other bare).symm

section Statements

theorem url_carries :
    respelling.Carries (Option.map (Value.respell respelling.byte)) (url room) parser := by
  apply after skipComments
  apply look startsUrl_respelled
  apply ite Iff.rfl
  · intro _
    exact value_carries
  · intro _
    exact pure rfl

def clauses (respelling : Respelling) (clauses : ImportClauses) : ImportClauses where
  layer := clauses.layer.map (Value.respell respelling.byte)
  supports := clauses.supports.map (SupportsCondition.respell respelling.byte)
  media := clauses.media.map (MediaQuery.respell respelling.byte)

theorem layerClause_carries :
    respelling.Carries (Value.respell respelling.byte) (layerClause room) parser :=
  nextIs (ite Iff.rfl (fun _ => call_carries) fun _ => plainValue_carries)

theorem supportsClause_carries :
    respelling.Carries (SupportsCondition.respell respelling.byte) (supportsClause room)
      parser := by
  apply after advance
  apply after advance
  apply Links.bind supportsCondition_carries
  apply after expect
  exact pure rfl

theorem keepFirst_links {α : Type} {change : α → α} (kept : Option α) (clause : α)
    (token : Token) :
    respelling.Links (Option.map change) (keepFirst kept clause token)
      (keepFirst (kept.map change) (change clause) (respelling.token token)) parser := by
  cases kept with
  | none => exact pure rfl
  | some first => exact after reportAt (pure rfl)

theorem importClause_links (clauses : ImportClauses) :
    respelling.Links respelling.clauses (importClause room clauses)
      (importClause room (respelling.clauses clauses)) parser := by
  have noMedia : (respelling.clauses clauses).media.isNone = clauses.media.isNone := by
    unfold Respelling.clauses
    cases clauses.media <;> rfl
  apply current
  rw [token_isWord, token_isWord, noMedia]
  apply ite Iff.rfl
  · intro _
    apply Links.bind layerClause_carries
    exact returning (keepFirst_links _ _ _) fun _ => rfl
  intro _
  apply nextIs
  apply ite Iff.rfl
  · intro _
    apply Links.bind supportsClause_carries
    exact returning (keepFirst_links _ _ _) fun _ => rfl
  intro _
  apply ite Iff.rfl
  · intro _
    exact returning mediaQuery_carries fun _ => rfl
  · intro _
    exact after report (advancing rfl)

theorem separatedClause_links (clauses : ImportClauses) :
    respelling.Links respelling.clauses (separatedClause room clauses)
      (separatedClause room (respelling.clauses clauses)) parser := by
  apply Links.bind (importClause_links clauses)
  exact after skipComments (pure rfl)

theorem importRule_carries : respelling.CarriesRule (importRule room) := by
  intro parser
  apply Links.bind url_carries
  generalize (url room parser).1 = found
  cases found with
  | none =>
    apply after report
    exact after skipDeclaration (pure rfl)
  | some address =>
    apply after skipComments
    apply Links.bind (iterate (fun _ => rfl) (fun clauses _ _ => separatedClause_links clauses)
      ⟨none, none, none⟩ _)
    apply after expect
    exact leaf rfl rfl rfl

theorem charset_carries : respelling.CarriesRule charset := by
  intro parser
  apply withQuotes
  intro quoted
  apply current
  apply ite Iff.rfl
  · intro string
    apply after advance
    apply after expect
    exact leaf (congrArg Node.charset (content_map (quoted.current string))) rfl rfl
  · intro _
    apply after report
    exact after skipDeclaration (pure rfl)

theorem namespaceLabel_carries :
    respelling.Carries (Option.map (List.map respelling.byte)) namespaceLabel parser := by
  apply current
  apply look startsUrl_respelled
  apply ite Iff.rfl
  · intro _
    exact advancing rfl
  · intro _
    exact pure rfl

theorem namespaceRule_carries : respelling.CarriesRule (namespaceRule room) := by
  intro parser
  apply Links.bind namespaceLabel_carries
  apply Links.bind url_carries
  generalize (url room _).1 = found
  cases found with
  | none =>
    apply after report
    exact after skipDeclaration (pure rfl)
  | some address =>
    apply after skipComments
    apply after expect
    exact leaf rfl rfl rfl

end Statements

section DeclarationRules

/-- A rule made of a block, which may be missing. -/
theorem blockRule_links {α : Type} {prelude : String} {body : Reading α} {change : α → α}
    {make made : α → Node} (inner : ∀ parser, respelling.Carries change body parser)
    (step : ∀ part, respelling.node? (make part) = some (made (change part))) :
    respelling.Links respelling.rule? (blockWith prelude (make <$> body))
      (blockWith prelude (made <$> body)) parser := by
  apply after expect
  apply ite Iff.rfl
  · intro _
    change respelling.Links respelling.rule? ((fun part => some (make part)) <$> body)
      ((fun part => some (made part)) <$> body) _
    exact map (inner _) fun part => (step part).symm
  · intro _
    exact after skipBlock (pure rfl)

/-- A rule made of a block of declarations, which may be missing. -/
theorem declarationRule_carries {place : String} {make made : List Declaration → Node}
    (step : ∀ declarations, respelling.node? (make declarations) =
      some (made (declarations.map (Declaration.respell respelling.byte)))) :
    respelling.Links respelling.rule?
      (declarationBlock room place >>= fun found => Pure.pure (found.map make))
      (declarationBlock room place >>= fun found => Pure.pure (found.map made)) parser :=
  returning declarationBlock_carries fun found => (rule?_map respelling step found).symm

theorem fontFace_carries : respelling.CarriesRule (fontFace room) := by
  intro parser
  exact declarationRule_carries fun _ => node?_of_leaf respelling rfl rfl

theorem counterStyle_carries : respelling.CarriesRule (counterStyle room) := by
  intro parser
  apply current
  apply ite Iff.rfl
  · intro _
    apply after advance
    apply after skipComments
    exact declarationRule_carries fun _ => node?_of_leaf respelling rfl rfl
  · intro _
    apply after report
    exact after skipBlock (pure rfl)

theorem profileName_token (token : Token) :
    profileName (respelling.token token) =
      (profileName token).map (ProfileName.respell respelling.byte) := by
  have custom : isCustomProperty (respelling.token token).literal =
      isCustomProperty token.literal := isCustomProperty_map token.literal
  unfold profileName
  rw [token_isWord, custom, token_kind, apply_ite (Option.map _), apply_ite (Option.map _)]
  rfl

theorem colorProfile_carries : respelling.CarriesRule (colorProfile room) := by
  intro parser
  apply current
  rw [profileName_token]
  generalize profileName parser.current = found
  cases found with
  | some profile =>
    apply after advance
    apply after skipComments
    exact declarationRule_carries fun _ => node?_of_leaf respelling rfl rfl
  | none =>
    apply after report
    exact after skipBlock (pure rfl)

theorem pageSelector_map (tokens : List Token) :
    pageSelector (tokens.map respelling.token) =
      (pageSelector tokens).map (List.map respelling.byte) := by
  unfold pageSelector
  rw [kept_map, List.isEmpty_map, verbatim_map, apply_ite (Option.map _)]
  rfl

theorem page_carries : respelling.CarriesRule (page room) := by
  intro parser
  apply take (Span.before_map respelling.token fun _ => rfl)
  rw [pageSelector_map]
  exact declarationRule_carries fun _ => node?_of_leaf respelling rfl rfl

theorem viewport_links (name : Bytes) :
    respelling.Links respelling.rule? (viewport room name)
      (viewport room (name.map respelling.byte)) parser :=
  declarationRule_carries fun _ => node?_of_leaf respelling rfl rfl

theorem stopSelector_carries :
    respelling.Carries (List.map (List.map respelling.byte)) stopSelector parser := by
  apply current
  rw [token_isWord, token_isWord]
  apply ite Iff.rfl
  · intro _
    exact advancing rfl
  intro _
  apply ite Iff.rfl
  · intro _
    exact advancing rfl
  intro _
  apply ite Iff.rfl
  · intro _
    exact returning numeric_carries fun _ => rfl
  intro _
  apply look startsNumeric_respelled
  apply ite Iff.rfl
  · intro _
    exact returning numeric_carries fun _ => rfl
  · intro _
    exact after report (advancing rfl)

theorem stopBlock_links (stops : List Bytes) :
    respelling.Links (Option.map (KeyframeStop.respell respelling.byte)) (stopBlock room stops)
      (stopBlock room (stops.map (List.map respelling.byte))) parser := by
  apply after (reportIf List.isEmpty_map)
  apply returning declarationBlock_carries
  intro found
  rw [List.isEmpty_map, apply_ite (Option.map _)]
  cases found <;> rfl

theorem keyframeStop_carries :
    respelling.Carries (Option.map (KeyframeStop.respell respelling.byte)) (keyframeStop room)
      parser := by
  apply Links.bind (collect (fun _ => rfl) (fun _ _ => stopSelector_carries) _)
  apply currentIs
  apply ite Iff.rfl
  · intro _
    exact stopBlock_links _
  · intro _
    exact reporting rfl

theorem keyframesMember_carries :
    respelling.Carries (List.map (KeyframeStop.respell respelling.byte)) (keyframesMember room)
      parser := by
  apply current
  apply ite Iff.rfl
  · intro _
    exact advancing rfl
  · intro _
    exact returning keyframeStop_carries fun _ => Option.toList_map ..

theorem keyframesName_token {token : Token} (quoted : token.Quoted) :
    keyframesName (respelling.token token) =
      (keyframesName token).map (List.map respelling.byte) := by
  obtain ⟨kind, literal, start⟩ := token
  cases kind with
  | string => exact congrArg some (content_map (quoted rfl))
  | _ => rfl

theorem keyframes_carries (webkit : Bool) : respelling.CarriesRule (keyframes room webkit) := by
  intro parser
  apply withQuotes
  intro quoted
  apply current
  rw [keyframesName_token quoted.current]
  generalize keyframesName parser.current = found
  cases found with
  | some name =>
    apply after advance
    apply after skipComments
    exact blockRule_links
      (fun _ => blockBody_carries rfl (fun _ _ => List.map_append) fun _ => keyframesMember_carries)
      fun _ => node?_of_leaf respelling rfl rfl
  | none =>
    apply after report
    exact after skipBlock (pure rfl)

theorem familyWords_carries :
    respelling.Carries (List.map respelling.byte) familyWords parser := by
  have blank : respelling.byte Byte.space = Byte.space := byte_plain rfl
  apply take (Span.before_map respelling.token fun _ => rfl)
  apply Links.pure
  rw [List.flatMap_map, List.map_flatMap]
  congr 1
  funext word
  rw [List.map_cons, blank]
  rfl

theorem family_carries :
    respelling.Carries (List.map (List.map respelling.byte)) family parser := by
  apply withQuotes
  intro quoted
  apply current
  generalize here : parser.current = token
  obtain ⟨kind, literal, start⟩ := token
  cases kind with
  | string =>
    have opening := quoted.current (congrArg Token.kind here)
    rw [here] at opening
    exact advancing (congrArg List.singleton (content_map opening))
  | ident =>
    apply after advance
    apply returning familyWords_carries
    intro words
    rw [List.map_singleton, List.map_append]
    rfl
  | _ => exact advancing rfl

theorem featureBlock_carries :
    respelling.Carries (Option.map (FeatureBlock.respell respelling.byte)) (featureBlock room)
      parser := by
  apply after advance
  apply current
  apply ite Iff.rfl
  · intro _
    apply after advance
    apply after skipComments
    apply returning declarationBlock_carries
    intro found
    cases found <;> rfl
  · intro _
    apply after report
    exact after skipAtRule (pure rfl)

theorem featureMember_carries :
    respelling.Carries (List.map (FeatureBlock.respell respelling.byte)) (featureMember room)
      parser := by
  apply current
  generalize parser.current = token
  obtain ⟨kind, literal, start⟩ := token
  cases kind with
  | semicolon | comment => exact advancing rfl
  | atSign => exact returning featureBlock_carries fun _ => Option.toList_map ..
  | _ => exact after report (advancing rfl)

theorem fontFeatureValues_carries : respelling.CarriesRule (fontFeatureValues room) := by
  intro parser
  apply Links.bind (collect (fun _ => rfl) (fun _ _ => family_carries) _)
  apply currentIs
  apply ite Iff.rfl
  · intro _
    apply after (reportIf List.isEmpty_map)
    apply after advance
    apply Links.bind (blockBody_carries rfl (fun _ _ => List.map_append)
      fun _ => featureMember_carries)
    exact leaf rfl rfl rfl
  · intro _
    apply after report
    exact after skipBlock (pure rfl)

end DeclarationRules

section Selectors

theorem markedName_links (mark : Token) (kind : SelectorKind) (place : String) :
    respelling.Links (List.map (SelectorAtom.respell respelling.byte))
      (markedName mark kind place) (markedName (respelling.token mark) kind place) parser := by
  apply after advance
  apply current
  apply ite Iff.rfl
  · intro _
    apply after advance
    apply Links.pure
    rw [List.map_singleton, SelectorAtom.respell, List.map_append]
    rfl
  · intro _
    exact reporting rfl

theorem attributeAtom_carries :
    respelling.Carries (SelectorAtom.respell respelling.byte) attributeAtom parser := by
  have opening : (utf8 "[").map respelling.byte = utf8 "[" := map_plain rfl
  have closing : (utf8 "]").map respelling.byte = utf8 "]" := map_plain rfl
  apply after advance
  apply take (Span.before_map respelling.token fun _ => rfl)
  rw [verbatim_map]
  apply after expect
  apply Links.pure
  rw [SelectorAtom.respell, List.map_append, List.map_append, opening, closing]

theorem pseudoArgument_carries :
    respelling.Carries (List.map respelling.byte) pseudoArgument parser := by
  apply current
  apply after advance
  apply take (Span.inside_map token_kind (fun _ => rfl) 0)
  apply current
  apply after expect
  apply ite Iff.rfl
  · intro _
    apply Links.pure
    rw [← verbatim_map, List.map_append]
    rfl
  · intro _
    apply Links.pure
    rw [← verbatim_map]
    rfl

theorem pseudoAtom_links (colons : Token) :
    respelling.Links (List.map (SelectorAtom.respell respelling.byte)) (pseudoAtom colons)
      (pseudoAtom (respelling.token colons)) parser := by
  have argument (parser : Parser) :
      respelling.Carries (List.map respelling.byte) optionalArgument parser :=
    currentIs (ite Iff.rfl (fun _ => pseudoArgument_carries) fun _ => pure rfl)
  apply after advance
  apply current
  apply ite Iff.rfl
  · intro _
    apply after advance
    apply returning (argument _)
    intro found
    rw [List.map_singleton, SelectorAtom.respell, List.map_append, List.map_append]
    rfl
  · intro _
    exact reporting rfl

theorem selectorAtom_carries :
    respelling.Carries (List.map (SelectorAtom.respell respelling.byte)) selectorAtom
      parser := by
  apply current
  generalize parser.current = token
  obtain ⟨kind, literal, start⟩ := token
  cases kind with
  | comment => exact advancing rfl
  | ident | asterisk | color | comma | greater | plus | tilde => exact advancing rfl
  | dot | hash => exact markedName_links _ _ _
  | openBracket => exact returning attributeAtom_carries fun _ => rfl
  | colon | doubleColon => exact pseudoAtom_links _
  | _ => exact after report (advancing rfl)

/-- What stands in the block of a rule-set is changed like any block. -/
theorem ruleSetWith_carries {block : Reading (Option (List Node))}
    (inner : ∀ parser, respelling.Carries (Option.map respelling.nodes) block parser) :
    respelling.CarriesRule (ruleSetWith block) := by
  intro parser
  apply Links.bind (collect (fun _ => rfl) (fun _ _ => selectorAtom_carries) _)
  apply currentIs
  apply ite Iff.rfl
  · intro _
    apply returning (inner _)
    intro found
    exact (rule?_map respelling (fun rules => node?_of_block respelling rules rfl rfl
      fun _ => rfl) found).symm
  · intro _
    exact reporting rfl

end Selectors

section Blocks

theorem nodes_carries {reading : Reading (Option Node)} (inner : respelling.CarriesRule reading) :
    respelling.Carries respelling.nodes (Grammar.nodes reading) parser :=
  map (inner parser) fun found => (nodes_toList respelling found).symm

theorem comment_carries : respelling.CarriesRule comment := by
  intro parser
  apply current
  apply after advance
  intro _
  exact Prod.ext (rule?_comment respelling _ _).symm rfl

theorem dropToken_carries {place : String} :
    respelling.Carries respelling.nodes (dropToken place) parser :=
  after report (advancing rfl)

theorem brokenDeclaration_carries :
    respelling.Carries respelling.nodes brokenDeclaration parser := by
  apply after report
  exact after skipDeclaration (pure rfl)

/-- What holds of all declarations of a block. -/
theorem nodes_declarations (found : Option Declaration) :
    respelling.nodes (found.toList.map Node.declaration) =
      (found.map (Declaration.respell respelling.byte)).toList.map Node.declaration := by
  cases found with
  | none => rfl
  | some declaration =>
    have same : respelling.node? (.declaration declaration) =
        some (.declaration (declaration.respell respelling.byte)) :=
      node?_of_leaf respelling rfl rfl
    unfold Respelling.nodes
    simp [same]

variable {ruleSet atRule : Reading (Option Node)}
variable (rules : respelling.CarriesRule ruleSet) (statements : respelling.CarriesRule atRule)

include rules in
theorem nameMember_carries :
    respelling.Carries respelling.nodes (nameMember room ruleSet) parser := by
  apply look blockFollows_respelled
  apply ite Iff.rfl
  · intro _
    exact nodes_carries rules
  · intro _
    exact returning declaration_carries fun found => (nodes_declarations found).symm

include statements in
theorem strayAtRule_carries {place : String} :
    respelling.Carries respelling.nodes (strayAtRule atRule place) parser := by
  apply after report
  apply Links.bind (statements _)
  exact pure rfl

include rules statements

theorem styleMember_carries {place : String} {other : Reading (List Node)}
    (others : ∀ parser, respelling.Carries respelling.nodes other parser) :
    respelling.Carries respelling.nodes (styleMember room ruleSet atRule place other)
      parser := by
  apply current
  generalize parser.current = token
  obtain ⟨kind, literal, start⟩ := token
  cases kind with
  | semicolon => exact advancing rfl
  | comment => exact nodes_carries comment_carries
  | ident => exact nameMember_carries rules
  | atSign => exact strayAtRule_carries statements
  | _ => exact ite Iff.rfl (fun _ => nodes_carries rules) fun _ => others _

theorem ruleMember_carries {place : String} :
    respelling.Carries respelling.nodes (ruleMember ruleSet atRule place) parser := by
  apply current
  generalize parser.current = token
  obtain ⟨kind, literal, start⟩ := token
  cases kind with
  | semicolon => exact advancing rfl
  | comment => exact nodes_carries comment_carries
  | atSign => exact nodes_carries statements
  | _ => exact ite Iff.rfl (fun _ => nodes_carries rules) fun _ => dropToken_carries

theorem nestedRules_carries {place : String} :
    respelling.Carries respelling.nodes (nestedRules ruleSet atRule place) parser :=
  blockBody_carries rfl (nodes_append respelling) fun _ => ruleMember_carries rules statements

theorem media_carries : respelling.CarriesRule (media ruleSet atRule) := by
  intro parser
  apply Links.bind mediaQuery_carries
  exact blockRule_links (fun _ => nestedRules_carries rules statements)
    fun found => node?_of_block respelling found rfl rfl fun _ => rfl

theorem supportsRule_carries : respelling.CarriesRule (supportsRule room ruleSet atRule) := by
  intro parser
  apply Links.bind supportsCondition_carries
  exact blockRule_links (fun _ => nestedRules_carries rules statements)
    fun found => node?_of_block respelling found rfl rfl fun _ => rfl

theorem container_carries : respelling.CarriesRule (container room ruleSet atRule) := by
  intro parser
  apply Links.bind containerLabel_carries
  apply Links.bind containerQuery_carries
  exact blockRule_links
    (fun _ => blockBody_carries rfl (nodes_append respelling)
      fun _ => styleMember_carries rules statements fun _ => dropToken_carries)
    fun found => node?_of_block respelling found rfl rfl fun _ => rfl

omit rules statements in
theorem layerName_carries :
    respelling.Carries (List.map (List.map respelling.byte)) layerName parser := by
  apply current
  apply after advance
  apply take innerLayers_map
  rw [literals_map]
  apply Links.pure
  rw [List.map_singleton, List.map_append]
  rfl

omit rules statements in
theorem layerPart_carries :
    respelling.Carries (List.map (List.map respelling.byte)) layerPart parser := by
  apply current
  generalize parser.current = token
  obtain ⟨kind, literal, start⟩ := token
  cases kind with
  | comment | comma => exact advancing rfl
  | ident => exact layerName_carries
  | _ => exact after report (advancing rfl)

theorem layer_carries : respelling.CarriesRule (layer ruleSet atRule) := by
  intro parser
  apply Links.bind (collect (fun _ => rfl) (fun _ _ => layerPart_carries) _)
  apply currentIs
  apply ite Iff.rfl
  · intro _
    apply after (reportIf List.isEmpty_map)
    apply after advance
    exact leaf rfl rfl rfl
  intro _
  apply currentIs
  apply ite Iff.rfl
  · intro _
    apply after advance
    apply returning (nestedRules_carries rules statements)
    intro found
    exact (node?_of_block respelling found rfl rfl fun _ => rfl).symm
  · intro _
    exact reporting rfl

theorem atRuleBody_links (name : Bytes) (rule : AtRule) :
    respelling.Links respelling.rule? (atRuleBody room ruleSet atRule name rule)
      (atRuleBody room ruleSet atRule (name.map respelling.byte) rule) parser := by
  cases rule with
  | media => exact media_carries rules statements parser
  | keyframes => exact keyframes_carries false parser
  | webkitKeyframes => exact keyframes_carries true parser
  | importRule => exact importRule_carries parser
  | charset => exact charset_carries parser
  | fontFace => exact fontFace_carries parser
  | fontFeatureValues => exact fontFeatureValues_carries parser
  | colorProfile => exact colorProfile_carries parser
  | counterStyle => exact counterStyle_carries parser
  | container => exact container_carries rules statements parser
  | supports => exact supportsRule_carries rules statements parser
  | layer => exact layer_carries rules statements parser
  | page => exact page_carries parser
  | namespaceRule => exact namespaceRule_carries parser
  | viewport => exact viewport_links name

theorem atRuleWith_carries :
    respelling.CarriesRule (atRuleWith (atRuleBody room ruleSet atRule)) := by
  intro parser
  apply look namesAtRule_respelled
  apply after advance
  apply ite Iff.rfl
  · intro _
    apply current
    apply look (lookup_map _ _)
    generalize Registry.lookup _ _ = found
    cases found with
    | none =>
      apply after reportAt
      apply after advance
      exact after skipAtRule (pure rfl)
    | some rule =>
      apply after advance
      apply after skipComments
      exact atRuleBody_links rules statements _ rule
  · intro _
    apply after report
    exact after skipAtRule (pure rfl)

theorem ruleSetBlock_carries :
    respelling.Carries (Option.map respelling.nodes) (ruleSetBlock room ruleSet atRule)
      parser := by
  apply after advance
  apply returning (blockBody_carries rfl (nodes_append respelling)
    fun _ => styleMember_carries rules statements fun _ => brokenDeclaration_carries)
  exact fun _ => rfl

end Blocks

section Rules

/-- Rule-sets and at-rules hold one another, so both are looked at together. -/
theorem rules_carry (respelling : Respelling) (room : Nat) :
    respelling.CarriesRule (ruleSet room) ∧ respelling.CarriesRule (atRule room) := by
  -- The rules of a block have less room. Without room there is no block, so no comment is dropped.
  induction room with
  | zero =>
    constructor
    · apply ruleSetWith_carries
      intro parser
      apply after report
      exact after skipBlock (pure rfl)
    · intro parser
      apply after report
      exact after skipAtRule (pure rfl)
  | succ room ih =>
    obtain ⟨rules, statements⟩ := ih
    constructor
    · exact ruleSetWith_carries fun _ => ruleSetBlock_carries rules statements
    · exact atRuleWith_carries rules statements

theorem topMember_carries :
    respelling.Carries respelling.nodes (topMember room) parser := by
  obtain ⟨rules, statements⟩ := rules_carry respelling room
  apply current
  generalize parser.current = token
  obtain ⟨kind, literal, start⟩ := token
  cases kind with
  | comment => exact nodes_carries comment_carries
  | atSign => exact nodes_carries statements
  | _ =>
    exact ite Iff.rfl (fun _ => nodes_carries rules) fun _ => after report (advancing rfl)

def stylesheet (respelling : Respelling) (sheet : Stylesheet) : Stylesheet :=
  ⟨respelling.nodes sheet.rules⟩

/-- A source that was written again gives the respelled stylesheet and the same problems. -/
theorem stylesheet_carries :
    respelling.Carries respelling.stylesheet (Grammar.stylesheet room) parser := by
  apply returning (joined (fun _ => rfl) rfl (nodes_append respelling)
    (fun _ _ => topMember_carries) parser)
  exact fun _ => rfl

end Rules

end CssSyntax.Respelling

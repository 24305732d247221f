import CssSyntax.Proofs.Braces.Block
import CssSyntax.Proofs.Braces.Prelude

/-! Every rule mirrors its own braces: one pair for its block and those of the rules inside it.
Rule-sets and at-rules hold one another, so both are shown by induction on the room. -/

namespace CssSyntax.Grammar

open Reading Mirrors Brace

variable {α : Type} {parser : Parser} {room : Nat}

abbrev ofNode (node : Option Node) : List Brace := node.elim [] Node.braces

abbrev ofNodes (nodes : List Node) : List Brace := nodes.flatMap Node.braces

theorem ofNodes_toList (node : Option Node) : ofNodes node.toList = ofNode node := by
  cases node with
  | none => rfl
  | some node => exact List.append_nil _

theorem block_bracesOf (rules : List Node) :
    block (Node.bracesOf rules) = block (ofNodes rules) :=
  congrArg block (Node.bracesOf_eq rules)

section Statements

theorem importRule_mirrors : (importRule room).Mirrors parser ofNode := by
  refine url_mirrors.before ?_
  split
  next => exact recover .declaration (by simp [Recovery.table, noUrl])
  next =>
    refine skipComments_mirrors.before (before ?_ (before (expect_mirrors rfl) (pure rfl)))
    refine iterate_mirrors separatedClause_advances (fun _ _ going => ?_) _ _
    exact (importClause_mirrors going).before (skipComments_mirrors.before (pure rfl))

theorem charset_mirrors : charset.Mirrors parser ofNode := by
  refine current (ite (fun string => ?_) fun _ => ?_)
  · exact (advance_mirrors (brace?_of_kind string)).before (before (expect_mirrors rfl) (pure rfl))
  · exact recover .declaration (by simp [Recovery.table])

theorem namespaceRule_mirrors : (namespaceRule room).Mirrors parser ofNode := by
  have label : namespaceLabel.Mirrors parser noBraces := by
    refine current (look (ite (fun label => ?_) fun _ => pure rfl))
    have name : parser.current.kind = .ident := by
      simp only [Bool.and_eq_true, decide_eq_true_eq] at label
      exact label.1
    exact (advance_mirrors (brace?_of_kind name)).before (pure rfl)
  refine label.before (url_mirrors.before ?_)
  split
  next => exact recover .declaration (by simp [Recovery.table, noUrl])
  next => exact skipComments_mirrors.before (before (expect_mirrors rfl) (pure rfl))

end Statements

section DeclarationRules

theorem fontFace_mirrors : (fontFace room).Mirrors parser ofNode :=
  returning (declarationBlock_mirrors (.inr (by simp [Recovery.table])) fun _ => rfl)

theorem counterStyle_mirrors : (counterStyle room).Mirrors parser ofNode := by
  refine current (ite (fun name => ?_) fun _ => ?_)
  · refine (advance_mirrors (brace?_of_kind name)).before (skipComments_mirrors.before ?_)
    exact returning (declarationBlock_mirrors (.inr (by simp [Recovery.table])) fun _ => rfl)
  · exact recover .block (by simp [Recovery.table])

theorem brace?_of_profileName {token : Token} {profile : ProfileName}
    (found : profileName token = some profile) : token.brace? = none := by
  unfold profileName at found
  split at found
  next device => exact brace?_of_isWord device
  next =>
    split at found
    next dashed => exact brace?_of_kind dashed.1
    next => exact absurd found (Option.some_ne_none profile).symm

theorem colorProfile_mirrors : (colorProfile room).Mirrors parser ofNode := by
  refine current ?_
  split
  next found =>
    refine (advance_mirrors (brace?_of_profileName found)).before (skipComments_mirrors.before ?_)
    exact returning (declarationBlock_mirrors (.inr (by simp [Recovery.table])) fun _ => rfl)
  next => exact recover .block (by simp [Recovery.table])

theorem structural_plain : IsPlain (Span.before Token.isStructural) :=
  IsPlain.before fun _ => brace?_of_isStructural

theorem page_mirrors : (page room).Mirrors parser ofNode :=
  (take_mirrors structural_plain).before
    (returning (declarationBlock_mirrors (.inr (by simp [Recovery.table])) fun _ => rfl))

theorem viewport_mirrors {name : Bytes} : (viewport room name).Mirrors parser ofNode :=
  returning (declarationBlock_mirrors (.inr (by simp [Recovery.table])) fun _ => rfl)

abbrev ofBlock (found : Option α) : List Brace := found.elim [] fun _ => block []

/-- One pair of braces for each. -/
abbrev ofBlocks (found : List α) : List Brace := found.flatMap fun _ => block []

theorem ofBlocks_toList (found : Option α) : ofBlocks found.toList = ofBlock found := by
  cases found with
  | none => rfl
  | some _ => rfl

theorem stopSelector_mirrors (going : parser.current.isStructural = false) :
    stopSelector.Mirrors parser noBraces := by
  have forward := advance_mirrors (brace?_of_isStructural going)
  apply Mirrors.current
  apply Mirrors.ite
  · intro _
    exact forward.before (pure rfl)
  intro _
  apply Mirrors.ite
  · intro _
    exact forward.before (pure rfl)
  intro _
  apply Mirrors.ite
  · intro _
    exact returning numeric_mirrors
  intro _
  apply Mirrors.look
  apply Mirrors.ite
  · intro _
    exact returning numeric_mirrors
  · intro _
    exact report fun _ => forward.level.bind pure_level

theorem stopBlock_mirrors {stops : List Bytes} (opens : parser.current.kind = .openBrace) :
    (stopBlock room stops).Mirrors parser ofBlock := by
  have whole : (declarationBlock room "keyframe selector").Mirrors parser ofBlock :=
    declarationBlock_mirrors (.inl opens) fun _ => rfl
  unfold stopBlock
  cases stops.isEmpty with
  | true => exact report fun _ => whole.level.bind pure_level
  | false =>
    refine before (pure rfl) ?_
    apply returning
    exact declarationBlock_mirrors (.inl opens) fun _ => rfl

theorem keyframeStop_mirrors : (keyframeStop room).Mirrors parser ofBlock := by
  refine before (collect_mirrors_noBraces stopSelector_advances
    (fun _ => stopSelector_mirrors) parser) (currentIs (ite (fun opens => ?_) fun _ => ?_))
  · exact stopBlock_mirrors (currentIs_iff.1 opens)
  · exact report fun _ => pure_level

theorem keyframesBody_closes (parser : Parser) : (keyframesBody room).Closes parser ofBlocks := by
  refine blockBody_closes keyframesMember_advances (fun parser _ => ?_) parser
  refine current (ite (fun separator => ?_) fun _ => ?_)
  · exact (advance_mirrors (brace?_of_either separator rfl rfl)).before (pure rfl)
  · exact returning (keyframeStop_mirrors.congr (ofBlocks_toList _).symm)

theorem brace?_of_keyframesName {token : Token} {name : Bytes}
    (found : keyframesName token = some name) : token.brace? = none := by
  unfold keyframesName at found
  split at found
  next name => exact brace?_of_kind name
  next string => exact brace?_of_kind string
  next => exact absurd found (Option.some_ne_none name).symm

theorem keyframes_mirrors {webkit : Bool} : (keyframes room webkit).Mirrors parser ofNode := by
  refine current ?_
  split
  next found =>
    refine (advance_mirrors (brace?_of_keyframesName found)).before (skipComments_mirrors.before ?_)
    exact blockWith_map_mirrors (by simp [Recovery.table]) keyframesBody_closes fun _ => rfl
  next => exact recover .block (by simp [Recovery.table])

theorem family_mirrors (going : endsFamilies parser.current = false) :
    family.Mirrors parser noBraces := by
  have plain : parser.current.brace? = none :=
    brace?_of_going (fun _ _ => rfl) (fun _ _ => rfl) going
  have words (parser : Parser) : familyWords.Mirrors parser noBraces := by
    refine returning (take_mirrors (IsPlain.before fun token name => ?_))
    exact brace?_of_kind (by simpa using name)
  refine current ?_
  split
  next => exact (advance_mirrors plain).before (pure rfl)
  next => exact (advance_mirrors plain).before (returning (words _))
  next => exact (advance_mirrors plain).before (pure rfl)

theorem featureBlock_mirrors (mark : parser.current.kind = .atSign) :
    (featureBlock room).Mirrors parser ofBlock := by
  refine (advance_mirrors (brace?_of_kind mark)).before (current (ite (fun name => ?_) fun _ => ?_))
  · refine (advance_mirrors (brace?_of_kind name)).before (skipComments_mirrors.before ?_)
    exact returning (declarationBlock_mirrors (.inr (by simp [Recovery.table])) fun _ => rfl)
  · exact report fun _ => skipAtRule_level.bind pure_level

theorem featureBody_closes (parser : Parser) : (featureBody room).Closes parser ofBlocks := by
  refine blockBody_closes featureMember_advances (fun parser _ => current ?_) parser
  split
  next semicolon => exact (advance_mirrors (brace?_of_kind semicolon)).before (pure rfl)
  next comment => exact (advance_mirrors (brace?_of_kind comment)).before (pure rfl)
  next mark => exact returning ((featureBlock_mirrors mark).congr (ofBlocks_toList _).symm)
  next => exact recover .token (by simp [Recovery.table])

theorem fontFeatureValues_mirrors : (fontFeatureValues room).Mirrors parser ofNode := by
  refine before (collect_mirrors_noBraces family_advances (fun _ => family_mirrors) parser)
    (currentIs (ite (fun opens => ?_) fun _ => ?_))
  · exact reportIf (advance_body_mirrors (currentIs_iff.1 opens) featureBody_closes fun _ => rfl)
  · exact recover .block (by simp [Recovery.table])

end DeclarationRules

section Rules

theorem ruleSetWith_mirrors {body : Reading (Option (List Node))}
    (inner : ∀ parser : Parser, parser.current.kind = .openBrace →
      body.Mirrors parser fun found => found.elim [] fun rules => block (ofNodes rules)) :
    (ruleSetWith body).Mirrors parser ofNode := by
  refine before (collect_mirrors_noBraces selectorAtom_advances
    (fun _ => selectorAtom_mirrors) parser) (currentIs (ite (fun opens => ?_) fun _ => ?_))
  · refine returning ((inner _ (currentIs_iff.1 opens)).congr ?_)
    cases (body _).1 with
    | none => rfl
    | some rules => exact (block_bracesOf rules).symm
  · exact report fun _ => pure_level

theorem comment_mirrors (is : parser.current.kind = .comment) :
    (nodes comment).Mirrors parser ofNodes := by
  refine map (current ((advance_mirrors (brace?_of_kind is)).before (look (pure ?_))))
  split <;> rfl

theorem dropToken_mirrors {place : String}
    (listed : (.misplaced place, .token) ∈ Recovery.table) :
    (dropToken place).Mirrors parser ofNodes :=
  recover .token listed

/-- The rules inside a block: what is shown of them with less room. -/
structure RulesMirror (room : Nat) : Prop where
  ruleSet : ∀ parser, (ruleSet room).Mirrors parser ofNode
  atRule : ∀ parser : Parser, parser.current.kind = .atSign →
    (atRule room).Mirrors parser ofNode

theorem innerLayers_plain : IsPlain innerLayers := by
  intro tokens
  fun_induction innerLayers tokens with
  | case1 point name rest layer ih =>
    exact plain_cons (brace?_of_kind layer.1) (plain_cons (brace?_of_kind layer.2.1) ih)
  | case2 => simp
  | case3 => simp

theorem layerPart_mirrors (going : parser.current.isStructural = false) :
    layerPart.Mirrors parser noBraces := by
  have forward := advance_mirrors (brace?_of_isStructural going)
  refine current ?_
  split
  next => exact forward.before (pure rfl)
  next => exact forward.before (pure rfl)
  next => exact current (forward.before ((take_mirrors innerLayers_plain).before (pure rfl)))
  next => exact report fun _ => forward.level.bind pure_level

section Inner

variable (inner : RulesMirror room)
include inner

theorem ruleSet_nodes_mirrors : (nodes (ruleSet room)).Mirrors parser ofNodes :=
  map ((inner.ruleSet parser).congr (ofNodes_toList _).symm)

theorem atRule_nodes_mirrors (mark : parser.current.kind = .atSign) :
    (nodes (atRule room)).Mirrors parser ofNodes :=
  map ((inner.atRule parser mark).congr (ofNodes_toList _).symm)

theorem nameMember_mirrors : (nameMember room (ruleSet room)).Mirrors parser ofNodes := by
  refine look (ite (fun _ => ruleSet_nodes_mirrors inner) fun _ => ?_)
  refine returning (declaration_mirrors.congr ?_)
  cases (declaration room parser).1 with
  | none => rfl
  | some _ => rfl

theorem strayAtRule_mirrors {place : String} (mark : parser.current.kind = .atSign) :
    (strayAtRule (atRule room) place).Mirrors parser ofNodes :=
  report fun _ => (inner.atRule parser mark).level.bind pure_level

theorem styleMember_mirrors {place : String} {other : Reading (List Node)}
    (others : other.Mirrors parser ofNodes) :
    (styleMember room (ruleSet room) (atRule room) place other).Mirrors parser ofNodes := by
  refine current ?_
  split
  next semicolon => exact (advance_mirrors (brace?_of_kind semicolon)).before (pure rfl)
  next is => exact comment_mirrors is
  next => exact nameMember_mirrors inner
  next mark => exact strayAtRule_mirrors inner mark
  next => exact ite (fun _ => ruleSet_nodes_mirrors inner) fun _ => others

theorem ruleMember_mirrors {place : String}
    (listed : (.misplaced place, .token) ∈ Recovery.table) :
    (ruleMember (ruleSet room) (atRule room) place).Mirrors parser ofNodes := by
  refine current ?_
  split
  next semicolon => exact (advance_mirrors (brace?_of_kind semicolon)).before (pure rfl)
  next is => exact comment_mirrors is
  next mark => exact atRule_nodes_mirrors inner mark
  next => exact ite (fun _ => ruleSet_nodes_mirrors inner) fun _ => dropToken_mirrors listed

theorem ruleSetBody_closes (parser : Parser) :
    (ruleSetBody room (ruleSet room) (atRule room)).Closes parser ofNodes :=
  blockBody_closes (styleMember_advances fun _ => brokenDeclaration_progresses)
    (fun _ _ => styleMember_mirrors inner brokenDeclaration_mirrors) parser

theorem containerBody_closes (parser : Parser) :
    (containerBody room (ruleSet room) (atRule room)).Closes parser ofNodes := by
  refine blockBody_closes (styleMember_advances fun _ going => ?_) (fun _ _ => ?_) parser
  · exact dropToken_progresses (kind_ne_of_endsBlock going).2
  · exact styleMember_mirrors inner (dropToken_mirrors (by simp [Recovery.table]))

theorem nestedRules_closes {place : String}
    (listed : (.misplaced place, .token) ∈ Recovery.table) (parser : Parser) :
    (nestedRules (ruleSet room) (atRule room) place).Closes parser ofNodes :=
  blockBody_closes (ruleMember_advances place) (fun _ _ => ruleMember_mirrors inner listed) parser

theorem media_mirrors : (media (ruleSet room) (atRule room)).Mirrors parser ofNode :=
  mediaQuery_mirrors.before (blockWith_map_mirrors (by simp [Recovery.table])
    (nestedRules_closes inner (by simp [Recovery.table])) block_bracesOf)

theorem supportsRule_mirrors :
    (supportsRule room (ruleSet room) (atRule room)).Mirrors parser ofNode :=
  (supportsCondition_mirrors _).before (blockWith_map_mirrors (by simp [Recovery.table])
    (nestedRules_closes inner (by simp [Recovery.table])) block_bracesOf)

theorem container_mirrors :
    (container room (ruleSet room) (atRule room)).Mirrors parser ofNode :=
  containerLabel_mirrors.before (containerQuery_mirrors.before (blockWith_map_mirrors
    (by simp [Recovery.table]) (containerBody_closes inner) block_bracesOf))

theorem layer_mirrors : (layer (ruleSet room) (atRule room)).Mirrors parser ofNode := by
  refine before (collect_mirrors_noBraces layerPart_advances
    (fun _ => layerPart_mirrors) parser) (currentIs (ite (fun semicolon => ?_) fun _ =>
      currentIs (ite (fun opens => ?_) fun _ => report fun _ => pure_level)))
  · have plain := brace?_of_kind (currentIs_iff.1 semicolon)
    exact reportIf ((advance_mirrors plain).before (pure rfl))
  · exact advance_body_mirrors (currentIs_iff.1 opens)
      (nestedRules_closes inner (by simp [Recovery.table])) block_bracesOf

theorem atRuleBody_mirrors {name : Bytes} (rule : AtRule) :
    (atRuleBody room (ruleSet room) (atRule room) name rule).Mirrors parser ofNode := by
  cases rule with
  | media => exact media_mirrors inner
  | keyframes => exact keyframes_mirrors
  | webkitKeyframes => exact keyframes_mirrors
  | importRule => exact importRule_mirrors
  | charset => exact charset_mirrors
  | fontFace => exact fontFace_mirrors
  | fontFeatureValues => exact fontFeatureValues_mirrors
  | colorProfile => exact colorProfile_mirrors
  | counterStyle => exact counterStyle_mirrors
  | container => exact container_mirrors inner
  | supports => exact supportsRule_mirrors inner
  | layer => exact layer_mirrors inner
  | page => exact page_mirrors
  | namespaceRule => exact namespaceRule_mirrors
  | viewport => exact viewport_mirrors

end Inner

theorem atRuleWith_mirrors {body : Bytes → AtRule → Reading (Option Node)}
    (inner : ∀ name rule parser, (body name rule).Mirrors parser ofNode)
    (mark : parser.current.kind = .atSign) : (atRuleWith body).Mirrors parser ofNode := by
  refine look ((advance_mirrors (brace?_of_kind mark)).before (ite (fun named => ?_) fun _ => ?_))
  · have name : (advance parser).2.current.kind = .ident := by
      rw [current_advance]
      exact nextIs_iff.1 (Bool.and_eq_true_iff.1 named).1
    have forward := advance_mirrors (brace?_of_kind name)
    refine current (look ?_)
    split
    next => exact reportAt fun _ => forward.level.bind (skipAtRule_level.bind pure_level)
    next => exact forward.before (skipComments_mirrors.before (inner _ _ _))
  · exact report fun _ => skipAtRule_level.bind pure_level

theorem rulesMirror (room : Nat) : RulesMirror room := by
  induction room with
  | zero =>
    constructor
    · intro parser
      refine ruleSetWith_mirrors fun parser opens => report fun _ => ?_
      exact (skipBlock_level opens).bind pure_level
    · intro parser _
      exact report fun _ => skipAtRule_level.bind pure_level
  | succ room inner =>
    constructor
    · intro parser
      refine ruleSetWith_mirrors fun parser opens => ?_
      exact advance_body_mirrors opens (ruleSetBody_closes inner) fun _ => rfl
    · intro parser mark
      exact atRuleWith_mirrors (fun _ rule _ => atRuleBody_mirrors inner rule) mark

theorem stylesheet_mirrors (room : Nat) (parser : Parser) :
    (stylesheet room).Mirrors parser Stylesheet.braces := by
  have inner := rulesMirror room
  refine returning ((collect_mirrors topMember_advances (fun parser _ => current ?_) parser).congr
    (Node.bracesOf_eq _).symm)
  split
  next is => exact comment_mirrors is
  next mark => exact atRule_nodes_mirrors inner mark
  next =>
    apply Mirrors.ite
    · intro _
      exact ruleSet_nodes_mirrors inner
    · intro _
      exact recover .token (by simp [Recovery.table])

end Rules

end CssSyntax.Grammar

import CssSyntax.Proofs.Nesting.Prelude

/-! Blocks and rules keep step with a skip that counts braces: what is read of them without a
problem closes the blocks that it opens. -/

namespace CssSyntax

open Reading CssSyntax.Span

namespace Grammar

variable {α : Type} {skipper : BlockSkipper} {opened : Nat} {near : List Token → Nat}
variable {parser : Parser} {room : Nat}

/-- What keeps step with a skip that counts parentheses keeps step with one that does not. -/
theorem flatly (goes : Goes near) {reading : Reading α}
    (stays : reading.Stays (Skipper.flat goes) 0 parser) : reading.Tracks near near parser :=
  stays

section Declarations

theorem declarationPart_tracks (goes : Goes near)
    (going : endsDeclaration parser.current = false) :
    (declarationPart (value room)).Tracks near near parser := by
  apply Tracks.look
  apply Tracks.ite
  · intro important
    obtain ⟨mark, word⟩ := Bool.and_eq_true_iff.1 important
    have next := (congrArg Token.kind (current_advance parser)).trans (kind_of_isWord word)
    apply Tracks.bind (flatly goes (advance_stays (currentIs_iff.1 mark) rfl))
    exact flatly goes (advancing_stays next rfl)
  · intro _
    apply Tracks.returning
    apply flatly goes
    exact separatedValue_stays (value_stays going fun closes =>
      goes _ (Token.isStructural_of_kind closes))

theorem declaration_tracks (goes : Goes near) (is : parser.current.kind = .ident) :
    (declaration room).Tracks near near parser := by
  apply Tracks.current
  rw [if_pos is]
  apply Tracks.bind (flatly goes (advance_stays is rfl))
  apply Tracks.expect
  intro colon
  apply Tracks.bind (flatly goes (advance_stays colon rfl))
  apply Tracks.bind (Tracks.collect (fun _ going => declarationPart_tracks goes going) _)
  exact Tracks.ite (fun _ => Tracks.report) fun _ => Tracks.pure

theorem closeBlock_ends {place : String} : (closeBlock place).Ends skipper opened parser := by
  apply Tracks.currentIs
  apply Tracks.ite
  · intro closes
    exact Tracks.advance (skipper.closing opened _ (currentIs_iff.1 closes))
  · intro _
    exact Tracks.reportLast

theorem blockBody_ends {place : String} {member : Reading (List α)}
    (members : ∀ parser, endsBlock parser.current = false → member.Stays skipper opened parser) :
    (blockBody place member).Ends skipper opened parser := by
  apply Tracks.bind (Tracks.collect members parser)
  exact Tracks.bind closeBlock_ends Tracks.pure

theorem blockWith_tracks {prelude : String} {body : Reading α}
    (starts : skipper.Starts opened near) (inner : ∀ parser, body.Ends skipper opened parser) :
    (blockWith prelude body).Tracks near (skipper.level opened) parser := by
  apply Tracks.expect
  intro opens
  apply Tracks.bind (Tracks.advance (starts.block _ opens))
  exact Tracks.returning (inner _)

/-- Inside a block a semicolon is a token like any other. -/
theorem semicolon_stays {value : α} (is : parser.current.kind = .semicolon) :
    (do
      advance
      return value : Reading α).Stays skipper opened parser :=
  Tracks.advancing ((skipper.starts opened).semicolon _ is)

theorem declarationBlock_tracks {place : String} (starts : skipper.Starts opened near) :
    (declarationBlock room place).Tracks near (skipper.level opened) parser := by
  apply blockWith_tracks starts
  intro parser
  apply blockBody_ends
  intro parser _
  apply Tracks.current
  apply Tracks.ite
  · intro separates
    rcases separates with semicolon | comment
    · exact semicolon_stays semicolon
    · exact flatly (skipper.goes opened) (advancing_stays comment rfl)
  intro _
  apply Tracks.ite
  · intro name
    exact Tracks.returning (declaration_tracks (skipper.goes opened) name)
  · intro _
    exact Tracks.report

end Declarations

section DeclarationRules

variable (starts : skipper.Starts opened near)
include starts

theorem fontFace_tracks : (fontFace room).Tracks near (skipper.level opened) parser :=
  Tracks.returning (declarationBlock_tracks starts)

theorem viewport_tracks (name : Bytes) :
    (viewport room name).Tracks near (skipper.level opened) parser :=
  Tracks.returning (declarationBlock_tracks starts)

theorem counterStyle_tracks : (counterStyle room).Tracks near (skipper.level opened) parser := by
  apply Tracks.current
  apply Tracks.ite
  · intro name
    apply Tracks.bind (flatly starts.goes (advance_stays name rfl))
    apply Tracks.bind (flatly starts.goes skipComments_stays)
    exact Tracks.returning (declarationBlock_tracks starts)
  · intro _
    exact Tracks.report

omit starts in
theorem kind_of_profileName {token : Token} {profile : ProfileName}
    (found : profileName token = some profile) : token.kind = .ident := by
  unfold profileName at found
  split at found
  next spells => exact kind_of_isWord spells
  next =>
    split at found
    next dashed => exact dashed.1
    next => exact absurd found.symm (Option.some_ne_none profile)

theorem colorProfile_tracks : (colorProfile room).Tracks near (skipper.level opened) parser := by
  apply Tracks.current
  cases found : profileName parser.current with
  | some profile =>
    apply Tracks.bind (flatly starts.goes (advance_stays (kind_of_profileName found) rfl))
    apply Tracks.bind (flatly starts.goes skipComments_stays)
    exact Tracks.returning (declarationBlock_tracks starts)
  | none => exact Tracks.report

theorem page_tracks : (page room).Tracks near (skipper.level opened) parser := by
  apply Tracks.take (past_drop_before starts.goes _).symm
  exact Tracks.returning (declarationBlock_tracks starts)

omit starts in
theorem stopSelector_tracks (goes : Goes near) : stopSelector.Tracks near near parser := by
  apply Tracks.current
  apply Tracks.ite
  · intro separates
    rcases separates with comma | comment
    · exact flatly goes (advancing_stays comma rfl)
    · exact flatly goes (advancing_stays comment rfl)
  intro _
  apply Tracks.ite
  · intro spells
    rcases Bool.or_eq_true_iff.1 spells with word | word
    · exact flatly goes (advancing_stays (kind_of_isWord word) rfl)
    · exact flatly goes (advancing_stays (kind_of_isWord word) rfl)
  intro _
  apply Tracks.ite
  · intro _
    exact Tracks.returning (flatly goes numeric_stays)
  intro _
  apply Tracks.look
  apply Tracks.ite
  · intro _
    exact Tracks.returning (flatly goes numeric_stays)
  · intro _
    exact Tracks.report

omit starts in
theorem keyframesMember_stays : (keyframesMember room).Stays skipper opened parser := by
  apply Tracks.current
  apply Tracks.ite
  · intro separates
    rcases separates with comment | semicolon
    · exact flatly (skipper.goes opened) (advancing_stays comment rfl)
    · exact semicolon_stays semicolon
  · intro _
    apply Tracks.returning
    apply Tracks.bind (Tracks.collect (fun _ _ => stopSelector_tracks (skipper.goes opened)) _)
    apply Tracks.currentIs
    apply Tracks.ite
    · intro _
      apply Tracks.reportIf
      exact Tracks.returning (declarationBlock_tracks (skipper.starts opened))
    · intro _
      exact Tracks.report

omit starts in
theorem kind_of_keyframesName {token : Token} {name : Bytes}
    (found : keyframesName token = some name) : token.kind.isPlain = true := by
  obtain ⟨kind, literal, start⟩ := token
  cases kind with
  | ident | string => rfl
  | _ => exact absurd found.symm (Option.some_ne_none name)

theorem keyframes_tracks (webkit : Bool) :
    (keyframes room webkit).Tracks near (skipper.level opened) parser := by
  apply Tracks.current
  cases found : keyframesName parser.current with
  | some name =>
    have plain : advance.Tracks near near parser :=
      flatly starts.goes (Tracks.advance (Skipper.steps (kind_of_keyframesName found)))
    apply Tracks.bind plain
    apply Tracks.bind (flatly starts.goes skipComments_stays)
    apply blockWith_tracks starts
    intro parser
    exact Tracks.map (blockBody_ends fun _ _ => keyframesMember_stays)
  | none => exact Tracks.report

omit starts in
theorem family_tracks (goes : Goes near) (going : endsFamilies parser.current = false) :
    family.Tracks near near parser := by
  have words (parser : Parser) : familyWords.Tracks near near parser := by
    apply Tracks.take
    · symm
      apply past_drop_before
      intro token further
      have name : token.kind = .ident := by simpa using further
      exact goes token (Token.isStructural_of_kind name)
    · exact Tracks.pure
  apply Tracks.current
  generalize here : parser.current.kind = kind
  cases kind with
  | string => exact flatly goes (advancing_stays here rfl)
  | ident =>
    apply Tracks.bind (flatly goes (advance_stays here rfl))
    exact Tracks.returning (words _)
  | comma | comment => exact flatly goes (advancing_stays here rfl)
  | _ => simp [endsFamilies, here] at going

omit starts in
theorem featureMember_stays : (featureMember room).Stays skipper opened parser := by
  apply Tracks.current
  generalize here : parser.current.kind = kind
  cases kind with
  | semicolon => exact semicolon_stays here
  | comment => exact flatly (skipper.goes opened) (advancing_stays here rfl)
  | atSign =>
    apply Tracks.returning
    apply Tracks.bind (flatly (skipper.goes opened) (advance_stays here rfl))
    apply Tracks.current
    apply Tracks.ite
    · intro name
      apply Tracks.bind (flatly (skipper.goes opened) (advance_stays name rfl))
      apply Tracks.bind (flatly (skipper.goes opened) skipComments_stays)
      exact Tracks.returning (declarationBlock_tracks (skipper.starts opened))
    · intro _
      exact Tracks.report
  | _ => exact Tracks.report

theorem fontFeatureValues_tracks :
    (fontFeatureValues room).Tracks near (skipper.level opened) parser := by
  apply Tracks.bind (Tracks.collect (fun _ going => family_tracks starts.goes going) _)
  apply Tracks.currentIs
  apply Tracks.ite
  · intro opens
    apply Tracks.reportIf
    apply Tracks.bind (Tracks.advance (starts.block _ (currentIs_iff.1 opens)))
    exact Tracks.returning (blockBody_ends fun _ _ => featureMember_stays)
  · intro _
    exact Tracks.report

end DeclarationRules

section Statements

variable (starts : skipper.Starts opened near)
include starts

/-- Last the semicolon of a statement. -/
theorem expectSemicolon_tracks {problem : Problem} {value : α} :
    (expect .semicolon problem >>= fun _ => Pure.pure value).Tracks near (skipper.level opened)
      parser := by
  apply Tracks.expect
  intro semicolon
  exact Tracks.advancing (starts.semicolon _ semicolon)

theorem importRule_tracks : (importRule room).Tracks near (skipper.level opened) parser := by
  apply Tracks.bind (flatly starts.goes url_stays)
  generalize (url room parser).1 = found
  cases found with
  | none => exact Tracks.report
  | some address =>
    apply Tracks.bind (flatly starts.goes skipComments_stays)
    apply Tracks.bind (Tracks.iterate
      (fun clauses _ _ => flatly starts.goes (separatedClause_stays clauses)) _ _)
    exact expectSemicolon_tracks starts

theorem charset_tracks : charset.Tracks near (skipper.level opened) parser := by
  apply Tracks.current
  apply Tracks.ite
  · intro string
    apply Tracks.bind (flatly starts.goes (advance_stays string rfl))
    exact expectSemicolon_tracks starts
  · intro _
    exact Tracks.report

theorem namespaceRule_tracks :
    (namespaceRule room).Tracks near (skipper.level opened) parser := by
  apply Tracks.bind (flatly starts.goes namespaceLabel_stays)
  apply Tracks.bind (flatly starts.goes url_stays)
  generalize (url room _).1 = found
  cases found with
  | none => exact Tracks.report
  | some address =>
    apply Tracks.bind (flatly starts.goes skipComments_stays)
    exact expectSemicolon_tracks starts

end Statements

section Selectors

theorem markedName_stays {mark : Token} {kind : SelectorKind} {place : String}
    (plain : parser.current.kind.isPlain = true) :
    (markedName mark kind place).Stays skipper opened parser := by
  have goes := skipper.goes opened
  apply Tracks.bind (flatly goes (Tracks.advance (Skipper.steps plain)))
  apply Tracks.current
  apply Tracks.ite
  · intro name
    exact flatly goes (advancing_stays name rfl)
  · intro _
    exact Tracks.report

theorem attributeAtom_stays (is : parser.current.kind = .openBracket) :
    attributeAtom.Stays skipper opened parser := by
  have goes := skipper.goes opened
  apply Tracks.bind (flatly goes (advance_stays is rfl))
  apply Tracks.take
  · symm
    apply past_drop_before
    -- Semicolons too are part of an attribute test.
    intro token inside
    have kinds : token.kind ≠ .openBrace ∧ token.kind ≠ .closeBrace ∧ token.kind ≠ .eof := by
      simp_all [endsAttribute]
    exact skipper.plain opened token kinds.1 kinds.2.1 (beq_eq_false_iff_ne.2 kinds.2.2)
  · apply Tracks.expect
    intro closes
    exact flatly goes (advancing_stays closes rfl)

theorem pseudoArgument_stays (is : parser.current.kind = .openParen) :
    pseudoArgument.Stays skipper opened parser := by
  have goes := skipper.goes opened
  apply Tracks.current
  apply Tracks.bind (Tracks.advance (goes _ (Token.isStructural_of_kind is)))
  apply Tracks.take (past_drop_inside (Skipper.flat goes) 0 _ 0 _).symm
  apply Tracks.current
  apply Tracks.expect
  intro closes
  exact Tracks.advancing (goes _ (Token.isStructural_of_kind closes))

theorem pseudoAtom_stays {colons : Token} (plain : parser.current.kind.isPlain = true) :
    (pseudoAtom colons).Stays skipper opened parser := by
  have goes := skipper.goes opened
  have argument (parser : Parser) : optionalArgument.Stays skipper opened parser := by
    apply Tracks.currentIs
    apply Tracks.ite
    · intro opens
      exact pseudoArgument_stays (currentIs_iff.1 opens)
    · intro _
      exact Tracks.pure
  apply Tracks.bind (flatly goes (Tracks.advance (Skipper.steps plain)))
  apply Tracks.current
  apply Tracks.ite
  · intro name
    apply Tracks.bind (flatly goes (advance_stays name rfl))
    exact Tracks.returning (argument _)
  · intro _
    exact Tracks.report

theorem selectorAtom_stays : selectorAtom.Stays skipper opened parser := by
  have goes := skipper.goes opened
  apply Tracks.current
  generalize here : parser.current.kind = kind
  have plain (is : kind.isPlain = true) := Kind.isPlain_of_eq here is
  cases kind with
  | comment => exact flatly goes (advancing_stays here rfl)
  | ident | asterisk | color | comma | greater | plus | tilde =>
    exact flatly goes (advancing_stays here rfl)
  | dot | hash => exact markedName_stays (plain rfl)
  | openBracket => exact Tracks.returning (attributeAtom_stays here)
  | colon | doubleColon => exact pseudoAtom_stays (plain rfl)
  | _ => exact Tracks.report

theorem ruleSetWith_stays {block : Reading (Option (List Node))}
    (inner : ∀ parser, parser.current.kind = .openBrace → block.Stays skipper opened parser) :
    (ruleSetWith block).Stays skipper opened parser := by
  apply Tracks.bind (Tracks.collect (fun _ _ => selectorAtom_stays) _)
  apply Tracks.currentIs
  apply Tracks.ite
  · intro opens
    exact Tracks.returning (inner _ (currentIs_iff.1 opens))
  · intro _
    exact Tracks.report

end Selectors

section Blocks

theorem comment_stays (is : parser.current.kind = .comment) :
    comment.Stays skipper opened parser := by
  apply Tracks.current
  apply Tracks.bind (flatly (skipper.goes opened) (advance_stays is rfl))
  exact Tracks.look Tracks.pure

/-- Rule-sets and at-rules close the blocks that they open, wherever they start. -/
structure RulesTrack (skipper : BlockSkipper) (ruleSet atRule : Reading (Option Node)) : Prop where
  ruleSet : ∀ opened parser, ruleSet.Stays skipper opened parser
  atRule : ∀ opened near parser, skipper.Starts opened near → parser.current.kind = .atSign →
    atRule.Tracks near (skipper.level opened) parser

variable {ruleSet atRule : Reading (Option Node)} (rules : RulesTrack skipper ruleSet atRule)
include rules

theorem nameMember_stays (is : parser.current.kind = .ident) :
    (nameMember room ruleSet).Stays skipper opened parser := by
  apply Tracks.look
  apply Tracks.ite
  · intro _
    exact Tracks.map (rules.ruleSet opened parser)
  · intro _
    exact Tracks.returning (declaration_tracks (skipper.goes opened) is)

theorem styleMember_stays {place : String} {other : Reading (List Node)}
    (others : ∀ parser, other.Stays skipper opened parser) :
    (styleMember room ruleSet atRule place other).Stays skipper opened parser := by
  apply Tracks.current
  generalize here : parser.current.kind = kind
  cases kind with
  | semicolon => exact semicolon_stays here
  | comment => exact Tracks.map (comment_stays here)
  | ident => exact nameMember_stays rules here
  | atSign => exact Tracks.report
  | _ => exact Tracks.ite (fun _ => Tracks.map (rules.ruleSet opened parser)) fun _ => others parser

theorem ruleMember_stays {place : String} :
    (ruleMember ruleSet atRule place).Stays skipper opened parser := by
  apply Tracks.current
  generalize here : parser.current.kind = kind
  cases kind with
  | semicolon => exact semicolon_stays here
  | comment => exact Tracks.map (comment_stays here)
  | atSign => exact Tracks.map (rules.atRule _ _ parser (skipper.starts opened) here)
  | _ =>
    exact Tracks.ite (fun _ => Tracks.map (rules.ruleSet opened parser)) fun _ => Tracks.report

theorem nestedRules_ends {place : String} :
    (nestedRules ruleSet atRule place).Ends skipper opened parser :=
  blockBody_ends fun _ _ => ruleMember_stays rules

/-- The block of a rule-set from its `{` on. -/
theorem ruleSetBlock_tracks
    (opens : Steps near (skipper.level (opened + 1)) parser.current) :
    (ruleSetBlock room ruleSet atRule).Tracks near (skipper.level opened) parser := by
  apply Tracks.bind (Tracks.advance opens)
  apply Tracks.returning
  apply blockBody_ends
  intro parser _
  exact styleMember_stays rules fun _ => Tracks.report

section AtRules

variable (starts : skipper.Starts opened near)
include starts

theorem media_tracks : (media ruleSet atRule).Tracks near (skipper.level opened) parser := by
  apply Tracks.bind (flatly starts.goes mediaQuery_stays)
  exact blockWith_tracks starts fun _ => Tracks.map (nestedRules_ends rules)

theorem supportsRule_tracks :
    (supportsRule room ruleSet atRule).Tracks near (skipper.level opened) parser := by
  apply Tracks.bind (flatly starts.goes supportsCondition_stays)
  exact blockWith_tracks starts fun _ => Tracks.map (nestedRules_ends rules)

theorem container_tracks :
    (container room ruleSet atRule).Tracks near (skipper.level opened) parser := by
  apply Tracks.bind (flatly starts.goes containerLabel_stays)
  apply Tracks.bind (flatly starts.goes containerQuery_stays)
  apply blockWith_tracks starts
  intro parser
  apply Tracks.map
  apply blockBody_ends
  intro parser _
  exact styleMember_stays rules fun _ => Tracks.report

omit rules starts in
theorem past_drop_innerLayers (goes : Goes near) (tokens : List Token) :
    past near (tokens.drop (innerLayers tokens)) = past near tokens := by
  match tokens with
  | [] => rfl
  | [_] => rfl
  | point :: name :: rest =>
    by_cases layer : point.kind = .dot ∧ name.kind = .ident ∧ point.stop = name.start.offset
    · have more : innerLayers (point :: name :: rest) = innerLayers rest + 2 := if_pos layer
      have first := goes point (Token.isStructural_of_kind layer.1)
      have second := goes name (Token.isStructural_of_kind layer.2.1)
      rw [more, past_cons first, past_cons second, ← past_drop_innerLayers goes rest]
      rfl
    · have none : innerLayers (point :: name :: rest) = 0 := if_neg layer
      rw [none]
      rfl

omit rules starts in
theorem layerPart_tracks (goes : Goes near) : layerPart.Tracks near near parser := by
  apply Tracks.current
  generalize here : parser.current.kind = kind
  cases kind with
  | comment | comma => exact flatly goes (advancing_stays here rfl)
  | ident =>
    apply Tracks.current
    apply Tracks.bind (flatly goes (advance_stays here rfl))
    exact Tracks.take (past_drop_innerLayers goes _).symm Tracks.pure
  | _ => exact Tracks.report

theorem layer_tracks : (layer ruleSet atRule).Tracks near (skipper.level opened) parser := by
  apply Tracks.bind (Tracks.collect (fun _ _ => layerPart_tracks starts.goes) _)
  apply Tracks.currentIs
  apply Tracks.ite
  · intro semicolon
    apply Tracks.reportIf
    exact Tracks.advancing (starts.semicolon _ (currentIs_iff.1 semicolon))
  intro _
  apply Tracks.currentIs
  apply Tracks.ite
  · intro opens
    apply Tracks.bind (Tracks.advance (starts.block _ (currentIs_iff.1 opens)))
    exact Tracks.returning (nestedRules_ends rules)
  · intro _
    exact Tracks.report

theorem atRuleBody_tracks (name : Bytes) (rule : AtRule) :
    (atRuleBody room ruleSet atRule name rule).Tracks near (skipper.level opened) parser := by
  cases rule with
  | media => exact media_tracks rules starts
  | keyframes => exact keyframes_tracks starts false
  | webkitKeyframes => exact keyframes_tracks starts true
  | importRule => exact importRule_tracks starts
  | charset => exact charset_tracks starts
  | fontFace => exact fontFace_tracks starts
  | fontFeatureValues => exact fontFeatureValues_tracks starts
  | colorProfile => exact colorProfile_tracks starts
  | counterStyle => exact counterStyle_tracks starts
  | container => exact container_tracks rules starts
  | supports => exact supportsRule_tracks rules starts
  | layer => exact layer_tracks rules starts
  | page => exact page_tracks starts
  | namespaceRule => exact namespaceRule_tracks starts
  | viewport => exact viewport_tracks starts name

theorem atRuleWith_tracks (is : parser.current.kind = .atSign) :
    (atRuleWith (atRuleBody room ruleSet atRule)).Tracks near (skipper.level opened)
      parser := by
  apply Tracks.look
  apply Tracks.bind (flatly starts.goes (advance_stays is rfl))
  apply Tracks.ite
  · intro named
    have follows := nextIs_iff.1 (Bool.and_eq_true_iff.1 named).1
    have name := (congrArg Token.kind (current_advance parser)).trans follows
    apply Tracks.current
    apply Tracks.look
    generalize Registry.lookup _ _ = found
    cases found with
    | none => exact Tracks.reportAt
    | some rule =>
      apply Tracks.bind (flatly starts.goes (advance_stays name rfl))
      apply Tracks.bind (flatly starts.goes skipComments_stays)
      exact atRuleBody_tracks rules starts _ rule
  · intro _
    exact Tracks.report

end AtRules

end Blocks

/-- Rule-sets and at-rules hold one another, so both are looked at together. -/
theorem rules_track (skipper : BlockSkipper) (room : Nat) :
    RulesTrack skipper (ruleSet room) (atRule room) := by
  -- The rules of a block have less room, and stand in one more block.
  induction room with
  | zero =>
    constructor
    · intro opened parser
      exact ruleSetWith_stays fun _ _ => Tracks.report
    · intro opened near parser _ _
      exact Tracks.report
  | succ room ih =>
    constructor
    · intro opened parser
      exact ruleSetWith_stays fun _ opens => ruleSetBlock_tracks ih (skipper.opening opened _ opens)
    · intro opened near parser starts is
      exact atRuleWith_tracks ih starts is

end Grammar

end CssSyntax

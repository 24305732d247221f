import CssSyntax.Proofs.Comments.Prelude

/-! Comments in rules. Between rules, between the members of blocks and in the prelude of a rule
they are dropped, and a name that a comment cuts off from what it belongs to is a problem. -/

namespace CssSyntax.Grammar

open Reading Clear Verbatim

variable {α : Type} {parser : Parser} {room : Nat}

theorem isStructural_of_comment {token : Token} (is : token.kind = .comment) :
    token.isStructural = false := by
  simp [Token.isStructural, is]

section Statements

theorem url_clear : (url room).Clear parser := by
  refine pastComments fun _ plain => ?_
  refine look (fun commented => Parser.startsUrl_bare commented plain) ?_
  exact ite (fun _ => value_clear plain) fun _ => pure

theorem layerClause_clear (is : parser.current.kind = .ident) :
    (layerClause room).Clear parser := by
  have plain := plain_of_kind is nofun
  refine look (fun commented => Parser.opensCall_bare commented is) (ite (fun opens => ?_) ?_)
  · exact call_clear plain opens
  · exact fun _ => tokenValue_clear plain

theorem supportsClause_clear (plain : parser.current.kind ≠ .comment)
    (opens : parser.nextIs .openParen = true) : (supportsClause room).Clear parser := by
  have there : (parser.skip 1).current.kind ≠ .comment := by
    rw [Parser.current_skip]
    exact plain_of_kind (nextIs_iff.1 opens) nofun
  refine step plain (step there (bind (supportsCondition_clear nofun) ?_))
  exact expect nofun (fun _ => pure) fun _ => pure

theorem keepFirst_clear {first : Option α} {clause : α} {token : Token} :
    (keepFirst first clause token).Clear parser := by
  cases first with
  | none => exact pure
  | some kept => exact reportAt pure

theorem importClause_clear {clauses : ImportClauses} (plain : parser.current.kind ≠ .comment) :
    (importClause room clauses).Clear parser := by
  refine current plain (ite (fun word => ?_) fun _ => look_of (fun commented => ?_) ?_)
  · exact bind (layerClause_clear (kind_of_isWord word)) (bind keepFirst_clear pure)
  · have same : (parser.current.isWord Word.supportsWord && parser.bare.nextIs .openParen) =
        (parser.current.isWord Word.supportsWord && parser.nextIs .openParen) := by
      by_cases word : parser.current.isWord Word.supportsWord = true
      · rw [Parser.opensCall_bare commented (kind_of_isWord word)]
      · rw [Bool.eq_false_iff.2 word, Bool.false_and, Bool.false_and]
    rw [same]
  · refine ite (fun supports => ?_) fun _ => ite (fun _ => ?_) fun _ => ?_
    · have opens := (Bool.and_eq_true_iff.1 supports).2
      exact bind (supportsClause_clear plain opens) (bind keepFirst_clear pure)
    · exact bind mediaQuery_clear pure
    · exact report fun plain => step plain pure

theorem importClause_blamed {clauses : ImportClauses} (is : parser.current.kind = .comment) :
    (importClause room clauses).Blamed parser := by
  have word (text : Bytes) : parser.current.isWord text = false := by simp [Token.isWord, is]
  apply Blamed.look
  rw [word, if_neg Bool.false_ne_true]
  apply Blamed.look
  rw [word, is]
  exact .bind_left (.report is)

theorem importRule_clear : (importRule room).Clear parser := by
  refine bind url_clear ?_
  split
  next => exact report fun _ => bind skipDeclaration pure
  next =>
    refine pastComments fun _ _ => bind (iterate separatedClause_advances ?_ ?_ ?_ _ _) ?_
    · exact fun _ => isStructural_of_comment
    · exact fun _ _ is => .bind_left (importClause_blamed is)
    · exact fun _ _ plain _ => bind (importClause_clear plain) (pastComments fun _ _ => pure)
    · exact expect nofun (fun _ => pure) fun _ => pure

theorem charset_clear : charset.Clear parser := by
  refine require nofun (fun is => step (plain_of_kind is nofun) ?_) fun _ => ?_
  · exact expect nofun (fun _ => pure) fun _ => pure
  · exact bind skipDeclaration pure

theorem namespaceLabel_clear (plain : parser.current.kind ≠ .comment) :
    namespaceLabel.Clear parser := by
  refine current plain (look (fun commented => Parser.startsUrl_bare commented plain) ?_)
  exact ite (fun _ => step plain pure) fun _ => pure

theorem namespaceRule_clear (plain : parser.current.kind ≠ .comment) :
    (namespaceRule room).Clear parser := by
  refine bind (namespaceLabel_clear plain) (bind url_clear ?_)
  split
  next => exact report fun _ => bind skipDeclaration pure
  next => exact pastComments fun _ _ => expect nofun (fun _ => pure) fun _ => pure

end Statements

section DeclarationRules

theorem counterStyle_clear : (counterStyle room).Clear parser := by
  refine require nofun (fun is => step (plain_of_kind is nofun) ?_) fun _ => ?_
  · exact pastComments fun _ _ => returning declarationBlock_clear
  · exact bind skipBlock pure

theorem colorProfile_clear (plain : parser.current.kind ≠ .comment) :
    (colorProfile room).Clear parser := by
  refine current plain ?_
  split
  next => exact step plain (pastComments fun _ _ => returning declarationBlock_clear)
  next => exact report fun _ => bind skipBlock pure

theorem pageSelector_kept (tokens : List Token) :
    pageSelector (kept tokens) = pageSelector tokens := by
  unfold pageSelector
  rw [kept_kept, verbatim_kept]

theorem page_clear : (page room).Clear parser := by
  refine take (fun _ => Span.before_clear_of_passes fun _ => isStructural_of_comment) ?_ ?_
  · rw [pageSelector_kept]
  · exact returning declarationBlock_clear

theorem stopSelector_passes (is : parser.current.kind = .comment) : stopSelector.Passes parser :=
  .current (.ite (fun _ => .drop) fun other => absurd (.inr is) other)

theorem stopSelector_clear (plain : parser.current.kind ≠ .comment) :
    stopSelector.Clear parser := by
  refine current plain (ite (fun _ => step plain pure) fun _ => ite (fun _ => step plain pure) ?_)
  refine fun _ => ite (fun is => returning (numeric_clear_of_number is)) fun _ => ?_
  refine look (fun commented => Parser.startsNumeric_bare commented plain) (ite (fun mark => ?_) ?_)
  · obtain ⟨front, number, rest, split, marks, is⟩ :=
      Parser.startsNumeric_split (Bool.and_eq_true_iff.1 mark).2
    exact returning (numeric_clear split marks.mark is)
  · exact fun _ => report fun plain => step plain pure

theorem stopBlock_clear {stops : List Bytes} : (stopBlock room stops).Clear parser :=
  reportIf (bind declarationBlock_clear pure)

theorem keyframeStop_clear : (keyframeStop room).Clear parser := by
  refine bind (collect stopSelector_advances (fun _ => isStructural_of_comment)
    (fun _ => stopSelector_passes) (fun _ plain _ => stopSelector_clear plain) _) ?_
  refine checkIs nofun (fun is => .bind_left (.report is)) fun _ => ?_
  exact ite (fun _ => stopBlock_clear) fun _ => report fun _ => pure

theorem keyframesMember_passes (is : parser.current.kind = .comment) :
    (keyframesMember room).Passes parser :=
  .current (.ite (fun _ => .drop) fun other => absurd (.inl is) other)

theorem keyframesMember_clear (plain : parser.current.kind ≠ .comment) :
    (keyframesMember room).Clear parser :=
  current plain (ite (fun _ => step plain pure) fun _ => returning keyframeStop_clear)

theorem keyframesBody_clear : (keyframesBody room).Clear parser :=
  blockBody_clear keyframesMember_advances (fun _ => keyframesMember_passes) fun _ plain _ =>
    keyframesMember_clear plain

theorem keyframes_clear {webkit : Bool} (plain : parser.current.kind ≠ .comment) :
    (keyframes room webkit).Clear parser := by
  refine current plain ?_
  split
  next =>
    exact step plain (pastComments fun _ _ => blockWith_clear fun _ => map keyframesBody_clear)
  next => exact report fun _ => bind skipBlock pure

theorem family_passes (is : parser.current.kind = .comment) : family.Passes parser := by
  apply Passes.current
  rw [is]
  exact .drop

theorem familyWords_kind {tokens : List Token} :
    ∀ token ∈ tokens.take (Span.before (fun token => token.kind != .ident) tokens),
      token.kind = .ident := by
  rw [take_before]
  intro token member
  simpa using List.mem_takeWhile_imp member

theorem familyWords_clear {name : Token} (whole : WordsWhole (name :: parser.ahead))
    (is : name.kind = .ident) : familyWords.Clear parser := by
  refine take (fun _ => Span.words_clear whole is) ?_ pure
  rw [kept_eq_self fun token member => plain_of_kind (familyWords_kind token member) nofun]

theorem family_clear (whole : WordsWhole parser.ahead) (plain : parser.current.kind ≠ .comment) :
    family.Clear parser := by
  refine current plain ?_
  split
  next => exact step plain pure
  next is =>
    rw [Parser.ahead_eq_skip (kind_ne_eof_of_eq is nofun)] at whole
    exact step plain (returning (familyWords_clear whole is))
  next => exact step plain pure

/-- A family is made of no structural token. -/
theorem family_taken (going : endsFamilies parser.current = false) :
    ∀ token ∈ family.taken parser, token.isStructural = false := by
  have notEnd : parser.current.kind ≠ .eof := kind_ne_of_going (fun _ _ => rfl) going
  have first : parser.current.isStructural = false := by
    cases kind : parser.current.kind <;> simp [endsFamilies, Token.isStructural, kind] at going ⊢
  have words {parser : Parser} :
      ∀ token ∈ familyWords.taken parser, token.isStructural = false := by
    intro token member
    rw [familyWords, taken_bind, taken_take, taken_pure, List.append_nil] at member
    simp [Token.isStructural, familyWords_kind token member]
  unfold family
  rw [taken_current]
  split
  next => simpa [taken_advance notEnd] using first
  next =>
    rw [taken_bind, taken_advance notEnd, taken_bind, taken_pure, List.append_nil]
    exact List.forall_mem_cons.2 ⟨first, words⟩
  next => simpa [taken_advance notEnd] using first

theorem featureBlock_clear (plain : parser.current.kind ≠ .comment) :
    (featureBlock room).Clear parser := by
  refine step plain (require nofun (fun is => step (plain_of_kind is nofun) ?_) fun _ => ?_)
  · exact pastComments fun _ _ => returning declarationBlock_clear
  · exact bind skipAtRule pure

theorem featureMember_passes (is : parser.current.kind = .comment) :
    (featureMember room).Passes parser := by
  apply Passes.current
  rw [is]
  exact .drop

theorem featureMember_clear (plain : parser.current.kind ≠ .comment) :
    (featureMember room).Clear parser := by
  refine current plain ?_
  split
  next => exact step plain pure
  next is => exact absurd is plain
  next => exact returning (featureBlock_clear plain)
  next => exact report fun plain => step plain pure

theorem featureBody_clear : (featureBody room).Clear parser :=
  blockBody_clear featureMember_advances (fun _ => featureMember_passes) fun _ plain _ =>
    featureMember_clear plain

theorem featureBlocks_clear {families : List Bytes} (plain : parser.current.kind ≠ .comment) :
    (featureBlocks room families).Clear parser :=
  reportIf (step plain (returning featureBody_clear))

theorem fontFeatureValues_clear (whole : WordsWhole parser.ahead) :
    (fontFeatureValues room).Clear parser := by
  have passes (token : Token) (is : token.kind = .comment) : endsFamilies token = false := by
    simp [endsFamilies, is]
  refine bind (collect_of (fun parser => WordsWhole parser.ahead) family_advances ?_
    (fun _ _ => family_passes) (fun _ whole plain _ _ => family_clear whole plain) ?_ _ whole) ?_
  · exact fun _ _ stopped comment =>
      Bool.false_ne_true ((passes _ comment).symm.trans stopped)
  · intro parser whole going
    rw [← taken_append family parser] at whole
    exact whole.drop _ (family_taken going)
  · have plain := current_collect family_advances passes parser
    refine currentIs plain (ite (fun _ => featureBlocks_clear plain) fun _ => ?_)
    exact report fun _ => bind skipBlock pure

end DeclarationRules

section Selectors

theorem markedName_clear {mark : Token} {kind : SelectorKind} {place : String}
    (plain : parser.current.kind ≠ .comment) : (markedName mark kind place).Clear parser :=
  step plain (require nofun (fun is => step (plain_of_kind is nofun) pure) fun _ => pure)

theorem attributeAtom_clear (plain : parser.current.kind ≠ .comment) :
    attributeAtom.Clear parser := by
  refine step plain (take (fun _ => Span.before_clear_of_passes fun token is => ?_) ?_ ?_)
  · simp [endsAttribute, is]
  · rw [verbatim_kept]
  · exact expect nofun (fun _ => pure) fun _ => pure

theorem pseudoArgument_clear (plain : parser.current.kind ≠ .comment) :
    pseudoArgument.Clear parser := by
  refine current plain (step plain (take (fun _ => Span.inside_clear (fun _ _ => rfl) 0) ?_ ?_))
  · simp only [verbatim, kept_append, kept_cons_kept]
  · refine check (fun is => ?_) fun _ => expect nofun (fun _ => pure) fun _ => pure
    rw [expect_bind]
    apply Blamed.look
    rw [is]
    exact .bind_left (.report is)

/-- The argument of a pseudo class is looked for right after its name. -/
theorem optionalArgument_clear (commented : parser.Commented)
    (name : parser.current.kind = .ident) : optionalArgument.Clear (parser.skip 1) := by
  have plain := plain_of_kind name nofun
  refine look (fun _ => ?_) (ite (fun opens => ?_) fun _ => pure)
  · rw [Parser.skip_bare plain]
    unfold Parser.currentIs
    rw [Parser.current_skip, Parser.current_skip]
    exact Parser.opensCall_bare commented name
  · exact pseudoArgument_clear (plain_of_kind (currentIs_iff.1 opens) nofun)

theorem pseudoAtom_clear {colons : Token} (plain : parser.current.kind ≠ .comment) :
    (pseudoAtom colons).Clear parser := by
  refine step plain (require nofun (fun name => ?_) fun _ => pure)
  refine of_commented fun commented => step (plain_of_kind name nofun) ?_
  exact bind (optionalArgument_clear commented name) pure

theorem selectorAtom_passes (is : parser.current.kind = .comment) : selectorAtom.Passes parser := by
  apply Passes.current
  rw [is]
  exact .drop

theorem selectorAtom_clear (plain : parser.current.kind ≠ .comment) :
    selectorAtom.Clear parser := by
  have token {kind : SelectorKind} {token : Token} : (tokenAtom kind token).Clear parser :=
    step plain pure
  refine current plain ?_
  split
  next is => exact absurd is plain
  next => exact token
  next => exact token
  next => exact markedName_clear plain
  next => exact markedName_clear plain
  next => exact token
  next => exact returning (attributeAtom_clear plain)
  next => exact pseudoAtom_clear plain
  next => exact pseudoAtom_clear plain
  next => exact token
  next => exact token
  next => exact token
  next => exact token
  next => exact report fun plain => step plain pure

theorem ruleSetWith_clear {block : Reading (Option (List Node))}
    (inner : ∀ parser : Parser, parser.current.kind ≠ .comment → block.Clear parser) :
    (ruleSetWith block).Clear parser := by
  refine bind (collect selectorAtom_advances (fun _ => isStructural_of_comment)
    (fun _ => selectorAtom_passes) (fun _ plain _ => selectorAtom_clear plain) _) ?_
  refine checkIs nofun (fun is => .bind_left (.report is)) fun plain => ?_
  refine ite (fun _ => ?_) fun _ => ?_
  · exact returning (inner _ plain)
  · exact report fun _ => pure

end Selectors

section Layers

theorem layerPart_comment (is : parser.current.kind = .comment) :
    layerPart parser = ([], parser.skip 1) := by
  unfold layerPart
  rw [current_apply, is]
  rfl

theorem layerPart_name (is : parser.current.kind = .ident) :
    layerPart parser = layerName parser := by
  unfold layerPart
  rw [current_apply, is]

/-- A point that comes next is a problem in a list of layers. -/
theorem layers_found (parser : Parser) {point : Token}
    (next : (kept parser.ahead).head? = some point) (dot : point.kind = .dot) :
    .ofToken (.misplaced "layer rule") point ∈
      (Reading.collect Token.isStructural layerPart).found parser := by
  induction parser using (measure fun parser : Parser => parser.ahead.length).wf.induction with
  | h parser ih =>
    cases split : parser.ahead with
    | nil =>
      rw [split] at next
      exact absurd next nofun
    | cons first rest =>
      have here : parser.current = first := by simp [Parser.current, Parser.nth, split]
      rw [split] at next
      by_cases comment : first.kind = .comment
      · -- The loop drops the comment and meets the point later.
        rw [← here] at comment
        have going := isStructural_of_comment comment
        have shorter := layerPart_advances parser going
        rw [found_collect_step layerPart_advances going]
        unfold Progresses at shorter
        rw [layerPart_comment comment] at shorter ⊢
        refine List.mem_append_right _ (ih _ shorter ?_)
        change (kept (parser.ahead.drop 1)).head? = some point
        rw [kept_cons_comment (here ▸ comment)] at next
        rw [split]
        exact next
      · rw [kept_cons comment] at next
        obtain rfl := Option.some.inj next
        rw [← here] at dot ⊢
        have going : parser.current.isStructural = false := by simp [Token.isStructural, dot]
        rw [found_collect_step layerPart_advances going]
        apply List.mem_append_left
        unfold layerPart
        rw [found_current, dot]
        exact List.mem_cons_self

theorem layerName_clear (is : parser.current.kind = .ident)
    (blameless : Blameless parser.ahead
      ((Reading.collect Token.isStructural layerPart).found (layerName parser).2)) :
    layerName.Clear parser := by
  have plain := plain_of_kind is nofun
  refine of_commented fun commented => ?_
  have split := Parser.ahead_eq_skip (kind_ne_eof_of_eq is nofun)
  have laid := commented.laid
  rw [split] at laid blameless
  have layers := Span.innerLayers_clear (laid.suffix (List.suffix_cons _ _)) is ?_
  · refine current plain (step plain (take (fun _ => layers.1) ?_ pure))
    rw [kept_eq_self layers.2]
  · intro last comment rest behind name parted
    by_contra further
    obtain ⟨point, inner, more, same, dot, word, touches⟩ := Span.innerLayers_pos further
    have left : (layerName parser).2.ahead = comment :: rest := by
      have tail := congrArg List.tail behind
      rwa [List.tail_drop] at tail
    have next : (kept (layerName parser).2.ahead).head? = some point := by
      rw [left, kept_cons_comment parted, same]
      rfl
    have within : last :: comment :: rest <:+ parser.current :: (parser.skip 1).ahead :=
      behind ▸ List.drop_suffix _ _
    have parted : Parted _ last (point :: inner :: more) := ⟨comment, rest, within, parted, same⟩
    exact blameless _ (layers_found _ next dot) (.layer parted name dot word touches)

theorem layers_clear : (Reading.collect Token.isStructural layerPart).Clear parser := by
  refine collect_of (fun _ => True) layerPart_advances ?_ ?_ ?_ (fun _ _ _ => trivial) parser
    trivial
  · exact fun parser _ => parser.current.plain_of_isStructural
  · intro parser _ is _
    have none : layerPart.found parser = [] := by
      unfold layerPart
      rw [found_current, is]
      rfl
    exact ⟨layerPart_comment is, none⟩
  · intro parser _ plain _ blameless
    refine current plain ?_
    split
    next is => exact absurd is plain
    next => exact step plain pure
    next is => exact layerName_clear is (layerPart_name is ▸ blameless)
    next => exact report fun plain => step plain pure

end Layers

section Rules

theorem nodes_comment_passes : (nodes comment).Passes parser := by
  intro commented
  refine ⟨?_, rfl⟩
  have dropped : (parser.skip 1).settings.keepComments = false := commented.dropped
  change (Option.toList (if (parser.skip 1).settings.keepComments = true then _ else _), _) = _
  rw [dropped]
  rfl

theorem dropToken_clear {place : String} : (dropToken place).Clear parser :=
  report fun plain => step plain pure

theorem brokenDeclaration_clear : brokenDeclaration.Clear parser :=
  report fun _ => bind skipDeclaration pure

section Members

variable {rules nested : Reading (Option Node)} {place : String}
variable (ruleSets : ∀ parser, rules.Clear parser)
variable (atRules : ∀ parser : Parser, parser.current.kind = .atSign → nested.Clear parser)

include ruleSets in
theorem nameMember_clear : (nameMember room rules).Clear parser := by
  refine look (fun _ => Parser.blockFollows_bare parser) (ite (fun _ => ?_) fun _ => ?_)
  · exact map (ruleSets parser)
  · exact returning declaration_clear

theorem styleMember_passes {other : Reading (List Node)} (is : parser.current.kind = .comment) :
    (styleMember room rules nested place other).Passes parser := by
  apply Passes.current
  rw [is]
  exact nodes_comment_passes

include ruleSets atRules in
theorem styleMember_clear {other : Reading (List Node)} (others : other.Clear parser)
    (plain : parser.current.kind ≠ .comment) :
    (styleMember room rules nested place other).Clear parser := by
  refine current plain ?_
  split
  next => exact step plain pure
  next is => exact absurd is plain
  next => exact nameMember_clear ruleSets
  next mark => exact report fun _ => bind (atRules _ mark) pure
  next => exact ite (fun _ => map (ruleSets _)) fun _ => others

theorem ruleMember_passes (is : parser.current.kind = .comment) :
    (ruleMember rules nested place).Passes parser := by
  apply Passes.current
  rw [is]
  exact nodes_comment_passes

include ruleSets atRules in
theorem ruleMember_clear (plain : parser.current.kind ≠ .comment) :
    (ruleMember rules nested place).Clear parser := by
  refine current plain ?_
  split
  next => exact step plain pure
  next is => exact absurd is plain
  next mark => exact map (atRules _ mark)
  next => exact ite (fun _ => map (ruleSets _)) fun _ => dropToken_clear

end Members

/-- Rule-sets and at-rules with some room left are read alike without comments. -/
structure RulesClear (room : Nat) : Prop where
  ruleSet : ∀ parser, (ruleSet room).Clear parser
  atRule : ∀ parser : Parser, parser.current.kind = .atSign → (atRule room).Clear parser

section Blocks

variable (inner : RulesClear room)
include inner

theorem ruleSetBody_clear : (ruleSetBody room (ruleSet room) (atRule room)).Clear parser :=
  blockBody_clear (styleMember_advances fun _ => brokenDeclaration_progresses)
    (fun _ => styleMember_passes) fun _ plain _ =>
      styleMember_clear inner.ruleSet inner.atRule brokenDeclaration_clear plain

theorem containerBody_clear : (containerBody room (ruleSet room) (atRule room)).Clear parser :=
  blockBody_clear (styleMember_advances fun _ going =>
      dropToken_progresses (kind_ne_of_endsBlock going).2)
    (fun _ => styleMember_passes) fun _ plain _ =>
      styleMember_clear inner.ruleSet inner.atRule dropToken_clear plain

theorem nestedRules_clear {place : String} :
    (nestedRules (ruleSet room) (atRule room) place).Clear parser :=
  blockBody_clear (ruleMember_advances place) (fun _ => ruleMember_passes) fun _ plain _ =>
    ruleMember_clear inner.ruleSet inner.atRule plain

theorem layer_clear : (layer (ruleSet room) (atRule room)).Clear parser := by
  have plain := current_collect layerPart_advances (fun _ => isStructural_of_comment) parser
  refine bind layers_clear (currentIs plain (ite (fun _ => reportIf (step plain pure)) fun _ => ?_))
  refine currentIs plain (ite (fun _ => step plain ?_) fun _ => report fun _ => pure)
  exact returning (nestedRules_clear inner)

theorem container_clear (plain : parser.current.kind ≠ .comment) :
    (container room (ruleSet room) (atRule room)).Clear parser := by
  refine bind (containerLabel_clear plain) (bind containerQuery_clear ?_)
  exact blockWith_clear fun _ => map (containerBody_clear inner)

/-- What stands after the name of an at-rule starts at no comment. -/
theorem atRuleBody_clear {name : Bytes} {rule : AtRule} (plain : parser.current.kind ≠ .comment)
    (whole : rule = .fontFeatureValues → WordsWhole parser.ahead) :
    (atRuleBody room (ruleSet room) (atRule room) name rule).Clear parser := by
  cases rule with
  | media =>
    exact bind mediaQuery_clear (blockWith_clear fun _ => map (nestedRules_clear inner))
  | keyframes => exact keyframes_clear plain
  | webkitKeyframes => exact keyframes_clear plain
  | importRule => exact importRule_clear
  | charset => exact charset_clear
  | fontFace => exact returning declarationBlock_clear
  | fontFeatureValues => exact fontFeatureValues_clear (whole rfl)
  | colorProfile => exact colorProfile_clear plain
  | counterStyle => exact counterStyle_clear
  | container => exact container_clear inner plain
  | supports =>
    refine bind (supportsCondition_clear nofun) ?_
    exact blockWith_clear fun _ => map (nestedRules_clear inner)
  | layer => exact layer_clear inner
  | page => exact page_clear
  | namespaceRule => exact namespaceRule_clear plain
  | viewport => exact returning declarationBlock_clear

end Blocks

/-- The at-rule that a name behind an `@` stands for. -/
theorem namedAtRule_clear {body : Bytes → AtRule → Reading (Option Node)}
    (name : parser.current.kind = .ident)
    (whole : parser.settings.registry.lookup parser.current.literal = some .fontFeatureValues →
      WordsWhole (parser.skip 1).ahead)
    (inner : ∀ name rule (parser : Parser), parser.current.kind ≠ .comment →
      (rule = .fontFeatureValues → WordsWhole parser.ahead) → (body name rule).Clear parser) :
    (namedAtRule body).Clear parser := by
  have plain := plain_of_kind name nofun
  refine current plain (look (fun _ => rfl) ?_)
  split
  next => exact reportAt (step plain (bind skipAtRule pure))
  next rule known =>
    refine step plain (bind skipComments ?_)
    refine inner _ rule _ (current_skipComments _) fun families => ?_
    have words := whole (families ▸ known)
    rw [← taken_append Reading.skipComments (parser.skip 1)] at words
    refine words.drop _ fun token member => isStructural_of_comment ?_
    unfold Reading.skipComments Span.comments at member
    rw [taken_skip, take_before] at member
    simpa using List.mem_takeWhile_imp member

theorem atRuleWith_clear {body : Bytes → AtRule → Reading (Option Node)}
    (mark : parser.current.kind = .atSign)
    (inner : ∀ name rule (parser : Parser), parser.current.kind ≠ .comment →
      (rule = .fontFeatureValues → WordsWhole parser.ahead) → (body name rule).Clear parser) :
    (atRuleWith body).Clear parser := by
  have plain := plain_of_kind mark nofun
  refine of_commented fun commented => look (fun _ => Parser.namesAtRule_bare commented plain) ?_
  refine step plain (ite (fun named => ?_) fun _ => report fun _ => bind skipAtRule pure)
  have name : (parser.skip 1).current.kind = .ident := by
    rw [Parser.current_skip]
    exact nextIs_iff.1 (Bool.and_eq_true_iff.1 named).1
  refine namedAtRule_clear name (fun known => ?_) inner
  have split : parser.current :: (parser.skip 1).current :: ((parser.skip 1).skip 1).ahead =
      parser.ahead := by
    rw [← Parser.ahead_eq_skip (kind_ne_eof_of_eq name nofun),
      ← Parser.ahead_eq_skip (kind_ne_eof_of_eq mark nofun)]
  exact commented.families _ _ _ ⟨[], split⟩ mark known

theorem rulesClear (room : Nat) : RulesClear room := by
  induction room with
  | zero =>
    constructor
    · exact fun _ => ruleSetWith_clear fun _ _ => report fun _ => bind skipBlock pure
    · exact fun _ _ => report fun _ => bind skipAtRule pure
  | succ room inner =>
    constructor
    · intro _
      refine ruleSetWith_clear fun _ plain => step plain ?_
      exact returning (ruleSetBody_clear inner)
    · exact fun _ mark => atRuleWith_clear mark fun _ _ _ plain whole =>
        atRuleBody_clear inner plain whole

theorem topMember_passes (is : parser.current.kind = .comment) :
    (topMember room).Passes parser := by
  apply Passes.current
  rw [is]
  exact nodes_comment_passes

theorem topMember_clear (plain : parser.current.kind ≠ .comment) :
    (topMember room).Clear parser := by
  obtain ⟨ruleSets, atRules⟩ := rulesClear room
  refine current plain ?_
  split
  next is => exact absurd is plain
  next mark => exact map (atRules _ mark)
  next => exact ite (fun _ => map (ruleSets _)) fun _ => report fun plain => step plain pure

theorem stylesheet_clear (room : Nat) (parser : Parser) : (stylesheet room).Clear parser := by
  refine returning (collect topMember_advances (fun token is => ?_) (fun _ => topMember_passes)
    (fun _ plain _ => topMember_clear plain) _)
  rw [is]
  rfl

end Rules

end CssSyntax.Grammar

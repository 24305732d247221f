import CssSyntax.Production
import CssSyntax.Proofs.Parser.Trail

/-! Where the block of a rule starts. What stands before it is read up to the first structural token
however malformed it is: a group that is not closed takes no brace, and a bracket without its
partner hides none. -/

namespace CssSyntax

open Reading Grammar

namespace Reading.Keeps

variable {α : Type} {parser : Parser} {room : Nat}

theorem featureValue {stop : Token → Bool} : (Grammar.featureValue stop).Keeps .level parser :=
  returning (take (Span.inside_level stop 0 _))

theorem ofKind {kind : Kind} (plain : Token.isStructural ⟨kind, [], .start⟩ = false)
    (is : parser.current.kind = kind) : Trail.level.Allows [parser.current] [] :=
  List.forall_mem_singleton.2 ((Token.isStructural_of_kind is).trans plain)

theorem forwardKind {kind : Kind} (is : parser.current.kind = kind)
    (plain : Token.isStructural ⟨kind, [], .start⟩ = false) :
    Reading.advance.Keeps .level parser :=
  advance (ofKind plain is)

section Media

theorem mediaFeatureValue : Grammar.mediaFeatureValue.Keeps .level parser := by
  refine (accept (ofKind rfl)).bind (ite (fun _ => ?_) fun _ => ?_)
  · exact featureValue.bind (reportIf.bind pure)
  · exact look (ite (fun _ => pure) fun _ => returning featureValue)

theorem closeFeature : Grammar.closeFeature.Keeps .level parser :=
  (expect (ofKind rfl)).bind (ite (fun _ => pure) fun _ => skipGroup)

theorem mediaFeature (opens : parser.current.kind = .openParen) :
    Grammar.mediaFeature.Keeps .level parser := by
  refine (forwardKind opens rfl).bind (skipComments.bind ?_)
  refine current (ite (fun name => ?_) fun _ => ?_)
  · refine (forwardKind name rfl).bind (skipComments.bind ?_)
    exact mediaFeatureValue.bind (closeFeature.bind pure)
  · exact report.bind (skipGroup.bind pure)

theorem conjuncts {condition : Reading (List α)}
    (progress : ∀ parser : Parser, parser.current.kind = .openParen → condition.Progresses parser)
    (inner : ∀ parser : Parser, parser.current.kind = .openParen → condition.Keeps .level parser) :
    (Grammar.conjuncts condition).Keeps .level parser := by
  refine skipComments.bind (collect (conjunct_advances progress) (fun parser going => ?_) _)
  refine look (ite (fun opens => ?_) fun other => ?_)
  · exact (inner parser (currentIs_iff.1 opens)).bind (skipComments.bind pure)
  · have word : parser.current.isWord Word.andWord = true :=
      (conjunct_cases going).resolve_left fun opens => other (currentIs_iff.2 opens)
    have conjunction : conjunction.Keeps .level parser :=
      (forwardKind (kind_of_isWord word) rfl).bind (skipComments.bind (look reportIf))
    exact conjunction.bind pure

theorem dropRest {stop : Token → Bool} {place : String}
    (stops : ∀ token, stop token = false → token.isStructural = false) :
    (Grammar.dropRest stop place).Keeps .level parser :=
  current (ite (fun _ => pure) fun _ => report.bind (skip (Span.before_level stops _)))

theorem isStructural_of_endsExpression {token : Token} (going : endsExpression token = false) :
    token.isStructural = false :=
  (Bool.or_eq_false_iff.1 going).2

theorem mediaExpression : Grammar.mediaExpression.Keeps .level parser := by
  have word {parser : Parser} {word : Bytes} : (Reading.acceptWord word).Keeps .level parser :=
    acceptWord fun is => ofKind rfl (kind_of_isWord is)
  have modifier (parser : Parser) : mediaModifier.Keeps .level parser :=
    word.bind (ite (fun _ => pure) fun _ => word.bind (ite (fun _ => pure) fun _ => pure))
  have type (parser : Parser) : mediaType.Keeps .level parser :=
    current (ite (fun name => returning (forwardKind name.1 rfl)) fun _ => pure)
  have features (parser : Parser) :
      (Grammar.conjuncts (Option.toList <$> Grammar.mediaFeature)).Keeps .level parser :=
    conjuncts (fun _ opens => Progresses.map (mediaFeature_progresses opens))
      fun _ opens => map (mediaFeature opens)
  refine skipComments.bind ((modifier _).bind (skipComments.bind ((type _).bind ?_)))
  exact (features _).bind ((dropRest fun _ => isStructural_of_endsExpression).bind pure)

theorem nextExpression (comma : parser.current.kind = .comma) :
    Grammar.nextExpression.Keeps .level parser :=
  (forwardKind comma rfl).bind (skipComments.bind (returning mediaExpression))

theorem mediaQuery : Grammar.mediaQuery.Keeps .level parser := by
  refine skipComments.bind (current (ite (fun _ => pure) fun _ => mediaExpression.bind ?_))
  refine returning (collect nextExpression_advances (fun parser going => ?_) _)
  exact nextExpression (by simpa using going)

end Media

section Container

theorem containerFeature {name : Token} (plain : parser.current.isStructural = false) :
    (Grammar.containerFeature name).Keeps .level parser := by
  refine (forward plain).bind (skipComments.bind (returning ?_))
  refine (accept (ofKind rfl)).bind (ite (fun _ => returning featureValue) fun _ => ?_)
  exact current (ite (fun _ => pure) fun _ => returning featureValue)

theorem containerPart {group : Reading ContainerCondition}
    (inner : ∀ parser : Parser, parser.current.kind = .openParen → group.Keeps .level parser)
    (going : endsContainerGroup parser.current = false) :
    (Grammar.containerPart group).Keeps .level parser := by
  have plain : parser.current.isStructural = false := (Bool.or_eq_false_iff.1 going).2
  refine bind (current ?_) (skipComments.bind pure)
  split
  next => exact ite (fun _ => returning (forward plain)) fun _ => containerFeature plain
  next opens => exact map (inner _ opens)
  next => exact reporting (returning (forward plain))

theorem containerCondition (opens : parser.current.kind = .openParen) :
    (Grammar.containerCondition room).Keeps .level parser := by
  induction room generalizing parser with
  | zero => exact reporting ((forwardKind opens rfl).bind (skipGroup.bind pure))
  | succ room ih =>
    refine (forwardKind opens rfl).bind (skipComments.bind (bind ?_ ?_))
    · exact collect containerPart_advances (fun _ => containerPart fun _ => ih) _
    · exact (expect (ofKind rfl)).bind pure

theorem containerLabel : Grammar.containerLabel.Keeps .level parser := by
  refine current (look (ite (fun label => ?_) fun _ => pure))
  have name : parser.current.kind = .ident := by
    simp only [isContainerName, Bool.and_eq_true, beq_iff_eq] at label
    exact label.1.1.1
  exact returning (forwardKind name rfl)

theorem containerQuery : (Grammar.containerQuery room).Keeps .level parser := by
  refine bind ?_ ((dropRest fun _ plain => plain).bind pure)
  exact conjuncts (fun _ opens => Progresses.bind_left (containerCondition_progresses opens))
    fun _ opens => returning (containerCondition opens)

end Container

end Reading.Keeps

namespace Grammar

variable {α β : Type} {parser : Parser}

theorem mediaExpression_ends : endsExpression (mediaExpression parser).2.current = true :=
  dropRest_stops endsExpression_of_endOfInput

/-- After an expression comes a further one, or a structural token. -/
theorem mediaQuery_ends : (mediaQuery parser).2.current.isStructural = true := by
  let relation (_ : List MediaExpression) (_ : List Diagnostic) (first last : Parser) : Prop :=
    endsExpression first.current = true → last.current.isStructural = true
  have stopped (parser : Parser) (notComma : (parser.current.kind != .comma) = true) :
      relation [] [] parser parser := by
    intro ends
    simpa [endsExpression, bne_iff_ne.1 notComma] using ends
  have others (parser : Parser) (ends : endsExpression parser.current = true) :
      (collect (fun token => token.kind != .comma) nextExpression
        parser).2.current.isStructural = true :=
    @collect_induction _ _ nextExpression relation nextExpression_advances stopped
      (fun _ _ _ _ _ more _ => more mediaExpression_ends) parser ends
  rw [mediaQuery, bind_apply, current_apply]
  split
  next structural => exact structural
  next => exact others _ mediaExpression_ends

theorem containerQuery_ends {room : Nat} :
    (containerQuery room parser).2.current.isStructural = true :=
  dropRest_stops fun _ => rfl

theorem blockWith_of_opens {prelude : String} {body : Reading α}
    (opens : parser.current.kind = .openBrace) :
    blockWith prelude body parser = (some <$> body) (parser.skip 1) := by
  rw [blockWith, bind_apply, expect_of_kind opens]
  rfl

theorem blockWith_of_other {prelude : String} {body : Reading α}
    (other : parser.current.kind ≠ .openBrace) : (blockWith prelude body parser).1 = none := by
  rw [blockWith, bind_apply, expect_of_other other]
  rfl

theorem blockWith_map {place : String} {change : α → β} {body : Reading α} :
    blockWith place (change <$> body) = Option.map change <$> blockWith place body := by
  unfold blockWith
  rw [map_bind]
  refine congrArg _ (funext fun opened => ?_)
  cases opened <;> rfl

/-- The reading gives something exactly if the first structural token from here on is a `{`. It is
then one of `blocks`, read from right behind that brace. -/
structure Opens (reading : Reading (Option α)) (blocks : β → Reading α) (parser : Parser) :
    Prop where
  isSome_iff : (reading parser).1.isSome = true ↔ parser.atStructure.current.kind = .openBrace
  block : parser.atStructure.current.kind = .openBrace → ∃ kept errors, reading parser =
    (some <$> blocks kept)
      ((parser.atStructure.skip 1).withErrors parser.settings.maxErrors errors)

/-- What is read up to the first structural token has its block behind that token. -/
theorem opens_of_level {prelude : Reading β} {place : String} {body : β → Reading α}
    (level : prelude.Keeps .level parser)
    (ends : (prelude parser).2.current.isStructural = true) :
    Opens (prelude >>= fun kept => blockWith place (body kept)) body parser := by
  obtain ⟨errors, ended⟩ := level.atStructure ends
  have run : (prelude >>= fun kept => blockWith place (body kept)) parser =
      blockWith place (body (prelude parser).1)
        (parser.atStructure.withErrors parser.settings.maxErrors errors) := by
    rw [bind_apply, ended]
  have same (limit : Option Nat) (errors : List Diagnostic) :
      (parser.atStructure.withErrors limit errors).current = parser.atStructure.current := rfl
  refine ⟨⟨fun is => ?_, fun opens => ?_⟩, fun opens => ⟨(prelude parser).1, errors, ?_⟩⟩
  · by_contra other
    rw [run, blockWith_of_other (by rwa [same])] at is
    exact Bool.noConfusion is
  · rw [run, blockWith_of_opens (by rwa [same])]
    rfl
  · rw [run, blockWith_of_opens (by rwa [same])]
    rfl

theorem media_opens (ruleSet atRule : Reading (Option Node)) (parser : Parser) :
    Opens (media ruleSet atRule)
      (fun query => Node.media query <$> nestedRules ruleSet atRule "media block") parser :=
  opens_of_level .mediaQuery mediaQuery_ends

theorem container_opens (room : Nat) (ruleSet atRule : Reading (Option Node)) (parser : Parser) :
    Opens (container room ruleSet atRule)
      (fun kept : Option Bytes × List ContainerCondition =>
        Node.container kept.1 kept.2 <$> containerBody room ruleSet atRule) parser := by
  let prelude : Reading (Option Bytes × List ContainerCondition) := do
    let label ← containerLabel
    return (label, ← containerQuery room)
  have whole : container room ruleSet atRule = prelude >>= fun kept =>
      blockWith "container query"
        (Node.container kept.1 kept.2 <$> containerBody room ruleSet atRule) := by
    simp only [prelude, bind_assoc, pure_bind]
    rfl
  rw [whole]
  exact opens_of_level (Keeps.containerLabel.bind (.returning .containerQuery)) containerQuery_ends

theorem page_opens (room : Nat) (parser : Parser) :
    Opens (page room) (fun selector => Node.page selector <$> declarations room "@page")
      parser := by
  let prelude : Reading (Option Bytes) := do
    return pageSelector (← take (Span.before Token.isStructural))
  have whole : page room = prelude >>= fun selector =>
      blockWith "@page" (Node.page selector <$> declarations room "@page") := by
    simp only [prelude, blockWith_map, bind_assoc, pure_bind]
    rfl
  rw [whole]
  exact opens_of_level (.returning (.take (Span.before_level (fun _ plain => plain) _)))
    (skip_before_stops fun _ => rfl)

/-- Whatever stands before it, the first structural token ends a media query, and the rules of a
media query, of a container and of a page have their block there or are dropped. -/
theorem prelude_opens (room : Nat) (ruleSet atRule : Reading (Option Node)) (parser : Parser) :
    (∃ errors, (mediaQuery parser).2 =
        parser.atStructure.withErrors parser.settings.maxErrors errors) ∧
      parser.atStructure.current.isStructural = true ∧
      Opens (media ruleSet atRule)
        (fun query => Node.media query <$> nestedRules ruleSet atRule "media block") parser ∧
      Opens (container room ruleSet atRule)
        (fun kept : Option Bytes × List ContainerCondition =>
          Node.container kept.1 kept.2 <$> containerBody room ruleSet atRule) parser ∧
      Opens (page room) (fun selector => Node.page selector <$> declarations room "@page")
        parser := by
  refine ⟨Keeps.mediaQuery.atStructure mediaQuery_ends, ?_, ?_, ?_, ?_⟩
  · exact skip_before_stops fun _ => rfl
  · exact media_opens ruleSet atRule parser
  · exact container_opens room ruleSet atRule parser
  · exact page_opens room parser

end Grammar

end CssSyntax

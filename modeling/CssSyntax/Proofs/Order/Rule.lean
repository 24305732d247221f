import CssSyntax.Proofs.Grammar.Confinement
import CssSyntax.Proofs.Order.Prelude
import CssSyntax.Proofs.Parser.Limit

/-! Statements, rules and whole sheets meet their problems in the order of the tokens. The only
problem that is not recorded where the reading is when it finds it is that of an import with a
second clause of a sort: it is known after the clause was read, and stands where the clause
starts. -/

namespace CssSyntax

/-- Tokens that no declaration ends at, whatever is wrong with them. -/
def Trail.going : Trail where
  Allows tokens _ := ∀ token ∈ tokens, Grammar.endsDeclaration token = false
  staying _ := List.forall_mem_nil _
  append near far := List.forall_mem_append.2 ⟨near, far⟩

namespace Grammar

open Reading.Walks

variable {all : Option (List Token)} {tokens : List Token} {parser : Parser} {room : Nat}

section Clauses

open Reading (Keeps)

theorem advance_going {kind : Kind} (is : parser.current.kind = kind)
    (plain : endsDeclaration ⟨kind, [], .start⟩ = false) : Reading.advance.Keeps .going parser :=
  Keeps.advance (List.forall_mem_singleton.2 (going_of_kind is plain))

theorem layerClause_going (named : parser.current.kind = .ident) :
    (layerClause room).Keeps .going parser := by
  refine Keeps.look (Keeps.ite (fun opens => Keeps.current ?_) fun _ => Keeps.current ?_)
  · have second : (Reading.advance parser).2.current.kind = .openParen := by
      rw [Reading.current_advance]
      exact Reading.nextIs_iff.1 opens
    refine (advance_going named rfl).bind ((advance_going second rfl).bind (Keeps.returning ?_))
    exact (arguments_holds room _).1.going
  · exact Keeps.returning (advance_going named rfl)

theorem supportsClause_going (named : parser.current.kind = .ident)
    (opens : parser.next.kind = .openParen) : (supportsClause room).Keeps .going parser := by
  have second : (Reading.advance parser).2.current.kind = .openParen := by
    rwa [Reading.current_advance]
  refine (advance_going named rfl).bind ((advance_going second rfl).bind ?_)
  have condition (parser : Parser) : (supportsCondition room .closeParen).Keeps .going parser :=
    (supportsCondition_confined room .closeParen parser).1.going
  refine (condition _).bind (Keeps.bind (Keeps.expect fun closes => ?_) Keeps.pure)
  exact List.forall_mem_singleton.2 (going_of_kind closes rfl)

theorem layerClause_walks : (layerClause room).Walks all :=
  bind nextIs fun _ => ite (fun _ => call_walks) fun _ => tokenValue_walks

theorem supportsClause_walks : (supportsClause room).Walks all :=
  advancing (advancing (bind supportsCondition_walks fun _ => bind expect fun _ => pure))

/-- A clause is kept, or it has its problem behind those inside of it. -/
theorem keptClause_walks {α β : Type} {reading : Reading α} {kept : Option α}
    {change : Option α → β}
    (repeated : kept.isSome → ∃ front, front ++ parser.remaining = tokens ∧
      RepeatedAfter front parser.current)
    (walks : reading.Walks none) (going : reading.Keeps .going parser)
    (progress : reading.Progresses parser) :
    (do
      let clause ← reading
      return change (← keepFirst kept clause parser.current) : Reading β).WalksFrom (some tokens)
      parser := by
  cases kept with
  | none => exact .bind (walks.lift parser) (pure _)
  | some first =>
    intro _
    obtain ⟨front, rfl, known⟩ := repeated rfl
    obtain ⟨inside, taken⟩ := progress.taken_eq_cons
    have near := walks parser nofun
    unfold Reading.Keeps at going
    rw [taken] at going
    rw [← Reading.taken_remaining reading parser, taken] at near ⊢
    have stays := (reading parser).2.remaining_record (.misplaced "import rule") parser.current
    rw [Reading.found_bind]
    change Walk _ _ (reading.found parser ++ [repeatedClause parser.current])
      ((reading parser).2.record (.misplaced "import rule") parser.current).remaining
    rw [stays]
    exact .again known (List.forall_mem_cons.1 going).2 near .stay

/-- The clauses that an import has were met in its statement. -/
def ClausesMet (tokens : List Token) (clauses : ImportClauses) (parser : Parser) : Prop :=
  ∃ front, front ++ parser.remaining = tokens ∧
    (clauses.layer.isSome → MetWord Word.layerWord front) ∧
      (clauses.supports.isSome → MetWord Word.supportsWord front)

variable {clauses : ImportClauses}

/-- A step over tokens of the statement, with a clause for the word that the step started at. -/
theorem ClausesMet.step {reading : Reading ImportClauses} (met : ClausesMet tokens clauses parser)
    (going : reading.Keeps .going parser) (progress : reading.Progresses parser)
    (layer : (reading parser).1.layer.isSome →
      clauses.layer.isSome ∨ parser.current.isWord Word.layerWord = true)
    (supports : (reading parser).1.supports.isSome →
      clauses.supports.isSome ∨ parser.current.isWord Word.supportsWord = true) :
    ClausesMet tokens (reading parser).1 (reading parser).2 := by
  obtain ⟨front, split, layerMet, supportsMet⟩ := met
  obtain ⟨inside, taken⟩ := progress.taken_eq_cons
  unfold Reading.Keeps at going
  have new {word : Bytes} (spells : parser.current.isWord word = true) :
      MetWord word (front ++ reading.taken parser) := by
    rw [taken] at going ⊢
    exact ⟨front, parser.current, inside, rfl, spells, (List.forall_mem_cons.1 going).2⟩
  refine ⟨front ++ reading.taken parser, ?_, fun has => ?_, fun has => ?_⟩
  · rw [List.append_assoc, Reading.taken_remaining, split]
  · exact (layer has).elim (fun had => (layerMet had).further going) new
  · exact (supports has).elim (fun had => (supportsMet had).further going) new

theorem keepFirst_going {α : Type} {kept : Option α} {clause : α} {token : Token} :
    (keepFirst kept clause token).Keeps .going parser := by
  have nothing : (keepFirst kept clause token).taken parser = [] := by
    apply Reading.taken_eq
    cases kept with
    | none => rfl
    | some first =>
      change (parser.record _ token).ahead = parser.ahead
      rw [Parser.record_eq_step]
      rfl
  unfold Keeps
  rw [nothing]
  exact List.forall_mem_nil _

theorem going_of_keeps_level {α : Type} {reading : Reading α}
    (level : reading.Keeps .level parser) : reading.Keeps .going parser :=
  fun token member => going_of_level (Bool.eq_false_iff.1 (level token member))

/-- A clause ends where its statement does at the latest. -/
theorem importClause_going (plain : parser.current.isStructural = false) :
    (importClause room clauses).Keeps .going parser := by
  refine Keeps.current (Keeps.ite (fun word => ?_) fun _ => Keeps.look (Keeps.ite (fun both => ?_)
    fun _ => Keeps.ite (fun _ => ?_) fun _ => ?_))
  · exact (layerClause_going (kind_of_isWord word)).bind (Keeps.returning keepFirst_going)
  · obtain ⟨word, opens⟩ := Bool.and_eq_true_iff.1 both
    have clause := @supportsClause_going parser room (kind_of_isWord word)
      (Reading.nextIs_iff.1 opens)
    exact clause.bind (Keeps.returning keepFirst_going)
  · exact Keeps.returning (going_of_keeps_level Keeps.mediaQuery)
  · exact Keeps.reporting (Keeps.returning (going_of_keeps_level (Keeps.forward plain)))

/-- A clause that was not there before is one of the word at which the step started. -/
theorem importClause_clauses :
    (importClause room clauses).Gives (fun _ => True) parser fun after =>
      (after.layer.isSome →
          clauses.layer.isSome ∨ parser.current.isWord Word.layerWord = true) ∧
        (after.supports.isSome →
          clauses.supports.isSome ∨ parser.current.isWord Word.supportsWord = true) := by
  refine .current (.ite (fun word => ?_) fun _ => .look (.ite (fun both => ?_) fun _ => ?_))
  · exact .after (.after (.pure ⟨fun _ => .inr word, .inl⟩))
  · exact .after (.after (.pure ⟨.inl, fun _ => .inr (Bool.and_eq_true_iff.1 both).1⟩))
  · exact .ite (fun _ => .after (.pure ⟨.inl, .inl⟩)) fun _ =>
      .after (.after (.pure ⟨.inl, .inl⟩))

theorem importClause_walks (met : ClausesMet tokens clauses parser) :
    (importClause room clauses).WalksFrom (some tokens) parser := by
  obtain ⟨front, split, layerMet, supportsMet⟩ := met
  apply Reading.WalksFrom.current
  split
  next word =>
    have named := kind_of_isWord word
    have notEnd : parser.current.kind ≠ .eof := named.trans_ne nofun
    have progress : (layerClause room).Progresses parser :=
      .bind (.ite (fun _ => call_progresses notEnd) fun _ => tokenValue_progresses notEnd)
    refine keptClause_walks (fun had => ?_) layerClause_walks (layerClause_going named) progress
    exact ⟨front, split, Word.layerWord, .inl rfl, word, layerMet had⟩
  next =>
    apply Reading.WalksFrom.look
    split
    next both =>
      obtain ⟨word, opens⟩ := Bool.and_eq_true_iff.1 both
      have named := kind_of_isWord word
      have progress : (supportsClause room).Progresses parser :=
        .bind_left (Reading.advance_progresses (named.trans_ne nofun))
      refine keptClause_walks (fun had => ?_) supportsClause_walks
        (supportsClause_going named (Reading.nextIs_iff.1 opens)) progress
      exact ⟨front, split, Word.supportsWord, .inr rfl, word, supportsMet had⟩
    next =>
      refine ite (fun _ => returning mediaQuery_walks) (fun _ => ?_) parser
      exact reporting (advancing pure)

/-- A clause with the comments behind it, given the clauses before it. -/
theorem separatedClause_step (plain : parser.current.isStructural = false)
    (met : ClausesMet tokens clauses parser) :
    (separatedClause room clauses).WalksFrom (some tokens) parser ∧
      ClausesMet tokens (separatedClause room clauses parser).1
        (separatedClause room clauses parser).2 := by
  constructor
  · exact .bind (importClause_walks met) (bind skip (fun _ => pure) _)
  · have comments (parser : Parser) : Reading.skipComments.Keeps .going parser :=
      going_of_keeps_level Keeps.skipComments
    have going : (separatedClause room clauses).Keeps .going parser :=
      (importClause_going plain).bind ((comments _).bind Keeps.pure)
    obtain ⟨layer, supports⟩ := @importClause_clauses parser room clauses fun _ _ => trivial
    exact met.step going (separatedClause_advances clauses parser plain) layer supports

/-- Before the first clause there is none. -/
theorem clauses_walk :
    (Reading.iterate Token.isStructural (separatedClause room) ⟨none, none, none⟩).Walks
      (some tokens) := by
  intro parser within
  obtain ⟨front, split⟩ := within tokens rfl
  have start : ClausesMet tokens ⟨none, none, none⟩ parser := ⟨front, split, nofun, nofun⟩
  exact Reading.WalksFrom.iterate (fun _ _ => separatedClause_step) start within

end Clauses

section Statements

theorem url_walks : (url room).Walks all :=
  bind skip fun _ => bind peek fun _ => ite (fun _ => value_walks) fun _ => pure

theorem importRule_walks : (importRule room).Walks (some tokens) := by
  refine bind url_walks fun address => ?_
  cases address with
  | none => exact refusal_walks
  | some address =>
    exact bind skip fun _ => bind clauses_walk fun _ => bind expect fun _ => pure

theorem charset_walks : charset.Walks all :=
  bind current fun _ => ite (fun _ => advancing (bind expect fun _ => pure)) fun _ => refusal_walks

theorem namespaceRule_walks : (namespaceRule room).Walks all := by
  have label : namespaceLabel.Walks all :=
    bind current fun _ => bind peek fun _ => ite (fun _ => advancing pure) fun _ => pure
  refine bind label fun _ => bind url_walks fun address => ?_
  cases address with
  | none => exact refusal_walks
  | some address => exact bind skip fun _ => bind expect fun _ => pure

end Statements

section Rules

theorem comment_walks : comment.Walks all :=
  bind current fun _ => advancing (bind peek fun _ => pure)

theorem dropToken_walks {place : String} : (dropToken place).Walks all :=
  reporting (advancing pure)

theorem layerPart_walks : layerPart.Walks all := by
  refine bind current fun token => ?_
  split
  next => exact advancing pure
  next => exact advancing pure
  next => exact bind current fun _ => advancing (returning take)
  next => exact reporting (advancing pure)

/-- The name of an unknown at-rule is the current token when its problem is recorded. -/
theorem namedAtRule_walks {body : Bytes → AtRule → Reading (Option Node)}
    (bodies : ∀ name rule, (body name rule).Walks all) : (namedAtRule body).Walks all := by
  intro parser
  refine .current (.look ?_)
  split
  next => exact .bind .report (advancing (bind skip fun _ => pure) _)
  next rule _ => exact advancing (Reading.Walks.bind skip fun _ => bodies _ rule) parser

theorem atRuleWith_walks {body : Bytes → AtRule → Reading (Option Node)}
    (bodies : ∀ name rule, (body name rule).Walks all) : (atRuleWith body).Walks all :=
  bind peek fun _ => advancing (ite (fun _ => namedAtRule_walks bodies) fun _ => refusal_walks)

section Inside

variable {ruleSet atRule : Reading (Option Node)}
  (rules : ruleSet.Walks (some tokens)) (atRules : atRule.Walks (some tokens))
include rules atRules

theorem styleMember_walks {place : String} {other : Reading (List Node)}
    (others : other.Walks (some tokens)) :
    (styleMember room ruleSet atRule place other).Walks (some tokens) := by
  refine bind current fun token => ?_
  split
  next => exact advancing pure
  next => exact map comment_walks
  next => exact bind peek fun _ => ite (fun _ => map rules) fun _ => returning declaration_walks
  next => exact reporting (bind atRules fun _ => pure)
  next => exact ite (fun _ => map rules) fun _ => others

theorem ruleSetBody_walks : (ruleSetBody room ruleSet atRule).Walks (some tokens) := by
  have broken : brokenDeclaration.Walks (some tokens) := reporting (bind skip fun _ => pure)
  exact blockBody_walks (styleMember_walks rules atRules broken)

theorem containerBody_walks : (containerBody room ruleSet atRule).Walks (some tokens) :=
  blockBody_walks (styleMember_walks rules atRules dropToken_walks)

theorem nestedRules_walks {place : String} :
    (nestedRules ruleSet atRule place).Walks (some tokens) := by
  refine blockBody_walks (bind current fun token => ?_)
  split
  next => exact advancing pure
  next => exact map comment_walks
  next => exact map atRules
  next => exact ite (fun _ => map rules) fun _ => dropToken_walks

theorem layer_walks : (layer ruleSet atRule).Walks (some tokens) := by
  refine bind (collect layerPart_walks) fun _ => bind currentIs fun _ => ite (fun _ => ?_) fun _ =>
    bind currentIs fun _ => ite (fun _ => ?_) fun _ => reporting pure
  · exact bind reportIf fun _ => advancing pure
  · exact advancing (returning (nestedRules_walks rules atRules))

theorem atRuleBody_walks (name : Bytes) (rule : AtRule) :
    (atRuleBody room ruleSet atRule name rule).Walks (some tokens) := by
  have nested {place : String} : (nestedRules ruleSet atRule place).Walks (some tokens) :=
    nestedRules_walks rules atRules
  cases rule with
  | media => exact bind mediaQuery_walks fun _ => blockWith_walks (map nested)
  | keyframes => exact keyframes_walks
  | webkitKeyframes => exact keyframes_walks
  | importRule => exact importRule_walks
  | charset => exact charset_walks
  | fontFace => exact fontFace_walks
  | fontFeatureValues => exact fontFeatureValues_walks
  | colorProfile => exact colorProfile_walks
  | counterStyle => exact counterStyle_walks
  | container =>
    refine bind containerLabel_walks fun _ => bind containerQuery_walks fun _ => ?_
    exact blockWith_walks (map (containerBody_walks rules atRules))
  | supports => exact bind supportsCondition_walks fun _ => blockWith_walks (map nested)
  | layer => exact layer_walks rules atRules
  | page => exact page_walks
  | namespaceRule => exact namespaceRule_walks
  | viewport => exact viewport_walks

end Inside

/-- Rules inside rules, one level after the other. -/
theorem rules_walk (room : Nat) :
    (ruleSet room).Walks (some tokens) ∧ (atRule room).Walks (some tokens) := by
  induction room with
  | zero => exact ⟨ruleSetWith_walks refusal_walks, refusal_walks⟩
  | succ room ih =>
    obtain ⟨rules, atRules⟩ := ih
    constructor
    · exact ruleSetWith_walks (advancing (returning (ruleSetBody_walks rules atRules)))
    · exact atRuleWith_walks (atRuleBody_walks rules atRules)

theorem stylesheet_walks (room : Nat) : (stylesheet room).Walks (some tokens) := by
  obtain ⟨rules, atRules⟩ := rules_walk room
  refine returning (collect (bind current fun token => ?_))
  split
  next => exact map comment_walks
  next => exact map atRules
  next => exact ite (fun _ => map rules) fun _ => reporting (advancing pure)

end Rules

end Grammar

/-- The limit keeps the first of the problems. -/
theorem capped_nil_prefix (limit : Option Nat) (found : List Diagnostic) :
    capped limit [] found <+: found := by
  cases limit with
  | none => exact List.prefix_refl _
  | some count =>
    rw [capped_of_nil]
    exact List.take_prefix _ _

/-- Before the first token all tokens of the source remain. -/
theorem remaining_ofTokens (settings : Settings) (source : Bytes) :
    (Parser.ofTokens settings (tokenize source)).remaining = tokenize source := by
  obtain ⟨front, last, split, -, -⟩ := (tokenize_tiles source).finish_last
  rw [split, ofTokens_eq]
  rfl

/-- Each diagnostic of a parse stands at a token of the source. Their places never go backwards,
save that the one for a repeated clause of an import stands at the word that the clause starts with,
and comes after those inside of the clause. -/
theorem errors_in_order (options : Options) (source : Bytes) :
    (∀ error ∈ (Report.ofSource options source).errors,
        ∃ token ∈ tokenize source, error.StandsAt token) ∧
      (Report.ofSource options source).errors.Pairwise fun earlier later =>
        earlier.place ≤ later.place ∨ RepeatsClause (tokenize source) earlier later := by
  let parser := Parser.ofTokens options.settings (tokenize source)
  have whole : parser.remaining = tokenize source := remaining_ofTokens _ _
  have walk := @Grammar.stylesheet_walks (tokenize source) Grammar.nestingLimit parser (by
    rintro tokens ⟨⟩
    rw [whole])
  rw [whole] at walk
  have kept : (Report.ofSource options source).errors <+:
      (Grammar.stylesheet Grammar.nestingLimit).found parser := by
    have recorded := Report.ofTokens_limited options.settings (tokenize source)
      options.settings.maxErrors
    change (Report.ofTokens { options.settings with maxErrors := options.settings.maxErrors }
      (tokenize source)).errors <+: _
    rw [recorded]
    exact capped_nil_prefix _ _
  constructor
  · intro error member
    obtain ⟨token, rest, within, -, stands⟩ := walk.stands error (kept.subset member)
    exact ⟨token, within.subset List.mem_cons_self, stands⟩
  · have ordered := (tokenize_tiles source).places_ordered
    have forward := walk.forward (by simp) (List.suffix_refl _) ordered
    exact forward.sublist kept.sublist

/-- The problem of the second layer is known after the one inside of it. -/
theorem repeated_clause_goes_back :
    ¬∀ options source, (Report.ofSource options source).errors.Pairwise fun earlier later =>
      earlier.place ≤ later.place := by
  intro all
  have errors : (Report.ofSource .standard (utf8 "@import \"a\" layer layer(!);")).errors =
      [⟨.misplaced "declaration value", 1, 25, .exclamation⟩,
        ⟨.misplaced "import rule", 1, 19, .ident⟩] := by
    decide +kernel
  have ordered := all .standard (utf8 "@import \"a\" layer layer(!);")
  rw [errors] at ordered
  have back := List.rel_of_pairwise_cons ordered List.mem_cons_self
  exact absurd back (by decide)

end CssSyntax

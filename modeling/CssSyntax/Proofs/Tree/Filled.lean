import CssSyntax.Proofs.Comments.Clear
import CssSyntax.Proofs.Parser.Quiet
import CssSyntax.Proofs.Parser.Yield
import CssSyntax.Report

/-! Nodes without holes. A tree that is parsed without a problem has no rule-set without a selector,
no list of names or families without an entry, no support declaration and no media feature with an
empty value. The value of a container feature alone may be empty, and only after a colon with
nothing behind it: no problem is found there. -/

namespace CssSyntax

open Verbatim

/-- The feature has no value, or one that is not empty. -/
def Feature.Filled (feature : Feature) : Prop := feature.value ≠ some []

/-- The tokens start with a colon that has nothing behind it: a `)` or the word `and` follows.
Comments do not count. -/
def BareColon (tokens : List Token) : Prop :=
  ∃ colon last more, kept tokens = colon :: last :: more ∧ colon.kind = .colon ∧
    (last.kind = .closeParen ∨ Grammar.isAnd last = true)

theorem BareColon.of_kept {left right : List Token} (bare : BareColon left)
    (same : kept left = kept right) : BareColon right := by
  unfold BareColon at bare ⊢
  rwa [← same]

/-- Somewhere among the tokens the name of the feature stands before such a colon. -/
def Feature.Bare (tokens : List Token) (feature : Feature) : Prop :=
  ∃ name rest, name :: rest <:+: tokens ∧ name.kind = .ident ∧ name.literal = feature.name ∧
    BareColon rest

def MediaExpression.Filled (expression : MediaExpression) : Prop :=
  ∀ feature ∈ expression.features, feature.Filled

def MediaQuery.Filled (query : MediaQuery) : Prop :=
  ∀ expression ∈ query.expressions, expression.Filled

/-- A declaration inside the condition has a value. -/
inductive SupportsCondition.Filled : SupportsCondition → Prop
  | declaration (key : Bytes) {value : List Value} (some : value ≠ []) :
      Filled (.declaration key value)
  | function (name : Bytes) (args : List Value) : Filled (.function name args)
  | operator (word : Bytes) : Filled (.operator word)
  | not {inner : SupportsCondition} (negated : Filled inner) : Filled (.not inner)
  | group {conditions : List SupportsCondition}
      (inner : ∀ condition ∈ conditions, Filled condition) : Filled (.group conditions)

/-- True of the nodes that hold no rules, names, conditions or features. -/
def Node.isPlain : Node → Bool
  | comment .. => true
  | declaration .. => true
  | keyframes .. => true
  | charset .. => true
  | fontFace .. => true
  | colorProfile .. => true
  | counterStyle .. => true
  | page .. => true
  | namespaceRule .. => true
  | viewport .. => true
  | _ => false

/-- No hole in the node or in the rules inside it. The features of containers are as `sized`
says. -/
inductive Node.Filled (sized : Feature → Prop) : Node → Prop
  | plain {node : Node} (flat : node.isPlain = true) : Filled sized node
  | ruleSet {selectors : List SelectorAtom} {rules : List Node} (atoms : selectors ≠ [])
      (inner : ∀ rule ∈ rules, Filled sized rule) : Filled sized (.ruleSet selectors rules)
  | media {query : MediaQuery} {rules : List Node} (queried : query.Filled)
      (inner : ∀ rule ∈ rules, Filled sized rule) : Filled sized (.media query rules)
  | importRule (url : Value) (layer : Option Value) {supports : Option SupportsCondition}
      {media : Option MediaQuery} (supported : ∀ condition ∈ supports, condition.Filled)
      (queried : ∀ query ∈ media, query.Filled) :
      Filled sized (.importRule url layer supports media)
  | fontFeatureValues {families : List Bytes} (blocks : List FeatureBlock) (some : families ≠ []) :
      Filled sized (.fontFeatureValues families blocks)
  | container (name : Option Bytes) {query : List ContainerCondition} {rules : List Node}
      (features : ∀ condition ∈ query, ∀ feature ∈ condition.features, sized feature)
      (inner : ∀ rule ∈ rules, Filled sized rule) : Filled sized (.container name query rules)
  | supports {condition : SupportsCondition} {rules : List Node} (supported : condition.Filled)
      (inner : ∀ rule ∈ rules, Filled sized rule) : Filled sized (.supports condition rules)
  | layerStatement {names : List Bytes} (some : names ≠ []) : Filled sized (.layerStatement names)
  | layerBlock (names : List Bytes) {rules : List Node}
      (inner : ∀ rule ∈ rules, Filled sized rule) : Filled sized (.layerBlock names rules)

/-- The features that a container is asked for. -/
def Node.containerFeatures : Node → List Feature
  | container _ query _ => query.flatMap ContainerCondition.features
  | _ => []

namespace Node.Filled

variable {sized weaker : Feature → Prop} {node : Node}

theorem mono (filled : node.Filled sized) (step : ∀ feature, sized feature → weaker feature) :
    node.Filled weaker := by
  induction filled with
  | plain flat => exact .plain flat
  | ruleSet atoms _ inner => exact .ruleSet atoms inner
  | media queried _ inner => exact .media queried inner
  | importRule url layer supported queried => exact .importRule url layer supported queried
  | fontFeatureValues blocks some => exact .fontFeatureValues blocks some
  | container name features _ inner =>
    refine .container name (fun condition among feature member => ?_) inner
    exact step feature (features condition among feature member)
  | supports supported _ inner => exact .supports supported inner
  | layerStatement some => exact .layerStatement some
  | layerBlock names _ inner => exact .layerBlock names inner

theorem containerFeatures (filled : node.Filled sized) :
    ∀ feature ∈ node.containerFeatures, sized feature := by
  intro feature member
  cases node with
  | container name query rules =>
    cases filled with
    | plain flat => exact absurd flat Bool.false_ne_true
    | container _ features _ =>
      obtain ⟨condition, among, inside⟩ := List.mem_flatMap.1 member
      exact features condition among feature inside
  | _ => exact absurd member List.not_mem_nil

end Node.Filled

namespace Grammar

open Reading Quietly

variable {tokens : List Token} {parser : Parser} {room : Nat}

section Features

theorem inside_cons_comment {stop : Token → Bool} {token : Token} {rest : List Token}
    (comment : token.kind = .comment) (going : stop token = false) :
    Span.inside stop 0 (token :: rest) = Span.inside stop 0 rest + 1 := by
  simp [Span.inside, Token.isStructural, comment, going]

/-- A token that does not end the value of a feature is part of it. -/
theorem inside_pos {stop : Token → Bool} {token : Token} {rest : List Token}
    (open_ : token.isStructural = false) (inner : token.kind ≠ .closeParen)
    (going : stop token = false) : 0 < Span.inside stop 0 (token :: rest) := by
  simp only [Span.inside, open_, going, Bool.and_false, Bool.false_eq_true, if_false]
  split
  next => exact Nat.succ_pos _
  next is => exact absurd is inner
  next => exact Nat.succ_pos _

theorem take_inside {stop : Token → Bool} {token : Token} {rest : List Token}
    (within : 0 < Span.inside stop 0 (token :: rest)) :
    ∃ more, (token :: rest).take (Span.inside stop 0 (token :: rest)) = token :: more := by
  obtain ⟨count, is⟩ := Nat.exists_eq_add_one.2 within
  exact ⟨rest.take count, by rw [is, List.take_succ_cons]⟩

/-- True of a token that ends the value of a feature. -/
def EndsValue (stop : Token → Bool) (token : Token) : Prop :=
  token.isStructural = true ∨ token.kind = .closeParen ∨ stop token = true

/-- A stretch that leaves no text behind is one of comments, and what ends it stands after them. -/
theorem inside_of_comments {stop : Token → Bool} {ahead : List Token}
    (plain : ∀ token, token.kind = .comment → stop token = false)
    (written : ∀ token ∈ ahead, token.literal ≠ [])
    (empty : verbatim (ahead.take (Span.inside stop 0 ahead)) = []) :
    kept ahead = kept (ahead.drop (Span.inside stop 0 ahead)) ∧
      ∀ last ∈ (ahead.drop (Span.inside stop 0 ahead)).head?,
        last.kind ≠ .comment ∧ EndsValue stop last := by
  induction ahead with
  | nil => exact ⟨rfl, fun last member => absurd member (Option.not_mem_none last)⟩
  | cons token rest ih =>
    by_cases comment : token.kind = .comment
    · rw [inside_cons_comment comment (plain token comment)] at empty ⊢
      rw [List.take_succ_cons, verbatim, kept_cons_comment comment] at empty
      rw [List.drop_succ_cons, kept_cons_comment comment]
      exact ih (fun other member => written other (List.mem_cons_of_mem _ member)) empty
    · rcases Nat.eq_zero_or_pos (Span.inside stop 0 (token :: rest)) with none | some
      · rw [none]
        refine ⟨rfl, fun last member => ?_⟩
        obtain rfl := Option.some.inj member
        refine ⟨comment, ?_⟩
        by_contra goes
        unfold EndsValue at goes
        simp only [not_or, Bool.not_eq_true] at goes
        have within : 0 < Span.inside stop 0 (token :: rest) :=
          inside_pos goes.1 goes.2.1 goes.2.2
        omega
      · obtain ⟨more, taken⟩ := take_inside some
        rw [taken] at empty
        exact absurd empty (verbatim_ne_nil (written token List.mem_cons_self) comment)

theorem current_of_nil (none : parser.ahead = []) : parser.current.isStructural = true := by
  unfold Parser.current Parser.nth
  rw [none]
  rfl

theorem current_of_cons {token : Token} {rest : List Token} (first : parser.ahead = token :: rest) :
    parser.current = token := by
  unfold Parser.current Parser.nth
  rw [first]
  rfl

theorem kept_drop_comments (ahead : List Token) :
    kept (ahead.drop (Span.comments ahead)) = kept ahead := by
  unfold Span.comments
  rw [drop_before]
  induction ahead with
  | nil => rfl
  | cons token rest ih =>
    by_cases comment : token.kind = .comment
    · rw [List.dropWhile_cons_of_pos (by simp [comment]), ih, kept_cons_comment comment]
    · rw [List.dropWhile_cons_of_neg (by simp [comment])]

/-- Past the comments stands none, and what is kept of the tokens is the same. -/
theorem pastComments {β : Type} {following : Unit → Reading β} {ends : β → Parser → Prop}
    (far : ∀ after : Parser, after.current.kind ≠ .comment →
      kept after.ahead = kept parser.ahead → (following ()).Quietly tokens after ends) :
    (skipComments >>= following).Quietly tokens parser ends :=
  after (far _ (Clear.current_skipComments parser) (kept_drop_comments parser.ahead))

/-- What may stand where the value of a feature is empty: its end, or a token that is no part of it
in a source without problems. -/
def Vacant (stop : Token → Bool) (ahead : List Token) (after : Parser) : Prop :=
  after.current.isStructural = true ∨
    ∃ last more, kept ahead = last :: more ∧ (last.kind = .closeParen ∨ stop last = true)

/-- At a token that can be part of a value, the value is not empty. -/
theorem Vacant.structural {stop : Token → Bool} {after : Parser}
    (vacant : Vacant stop parser.ahead after) (plain : parser.current.kind ≠ .comment)
    (inner : parser.current.kind ≠ .closeParen) (going : stop parser.current = false) :
    after.current.isStructural = true := by
  rcases vacant with structural | ⟨last, more, first, closing⟩
  · exact structural
  · cases ahead : parser.ahead with
    | nil =>
      rw [ahead] at first
      exact absurd first (List.cons_ne_nil last more).symm
    | cons token rest =>
      obtain rfl := current_of_cons ahead
      rw [ahead, kept_cons plain] at first
      obtain ⟨rfl, -⟩ := List.cons.inj first
      rcases closing with paren | stopped
      · exact absurd paren inner
      · exact absurd (stopped.symm.trans going) Bool.noConfusion

theorem closeFeature_quietly :
    closeFeature.Quietly tokens parser fun _ _ => parser.current.kind = .closeParen :=
  expect fun is => pure is

theorem collect_each {α : Type} {holds : α → Prop} {stop : Token → Bool} {item : Reading (List α)}
    (items : ∀ parser, stop parser.current = false →
      item.Quietly tokens parser fun found _ => Each holds found) :
    (collect stop item).Quietly tokens parser fun found _ => Each holds found :=
  collect_quietly (fun _ parser going before => (items parser going).mono fun _ _ => before.append)
    Each.nil

theorem conjuncts_quietly {α : Type} {holds : α → Prop} {condition : Reading (List α)}
    (inner : ∀ parser, condition.Quietly tokens parser fun found _ => Each holds found) :
    (conjuncts condition).Quietly tokens parser fun found _ => Each holds found := by
  refine after (collect_each fun parser _ => look (ite (fun _ => ?_) fun _ => ?_))
  · exact bind (inner parser) fun _ _ each => after (pure each)
  · exact after (pure Each.nil)

/-- A container feature with no hole, or one after whose colon nothing stands. -/
def Sized (tokens : List Token) (feature : Feature) : Prop := feature.Filled ∨ feature.Bare tokens

theorem structural_skipComments (structural : parser.current.isStructural = true) :
    (skipComments parser).2.current.isStructural = true := by
  change (parser.skip (Span.comments parser.ahead)).current.isStructural = true
  cases ahead : parser.ahead with
  | nil => exact current_of_nil (by simp [Parser.skip, ahead])
  | cons token rest =>
    obtain rfl := current_of_cons ahead
    have plain := parser.current.plain_of_isStructural structural
    have none : Span.comments (parser.current :: rest) = 0 := by
      simp [Span.comments, Span.before, plain]
    rw [none]
    exact structural

section Written

variable (written : ∀ token ∈ tokens, token.literal ≠ [])
include written

theorem featureValue_quietly {stop : Token → Bool}
    (plain : ∀ token, token.kind = .comment → stop token = false) :
    (featureValue stop).Quietly tokens parser fun value after =>
      value = [] → Vacant stop parser.ahead after := by
  intro last _ empty
  obtain ⟨same, ends⟩ := inside_of_comments plain
    (fun token member => written token (last.subset member)) empty
  change Vacant stop parser.ahead (parser.skip (Span.inside stop 0 parser.ahead))
  cases rest : parser.ahead.drop (Span.inside stop 0 parser.ahead) with
  | nil => exact .inl (current_of_nil rest)
  | cons next more =>
    rw [rest] at same ends
    obtain ⟨noComment, structural | closing⟩ := ends next rfl
    · have here : (parser.skip (Span.inside stop 0 parser.ahead)).current = next :=
        current_of_cons rest
      exact .inl (here ▸ structural)
    · exact .inr ⟨next, kept more, by rw [same, kept_cons noComment], closing⟩

/-- The value of a media feature is empty only where the feature is cut short. -/
theorem mediaFeatureValue_quietly (plain : parser.current.kind ≠ .comment) :
    mediaFeatureValue.Quietly tokens parser fun value after =>
      value = some [] → after.current.isStructural = true := by
  have noStop : ∀ token : Token, token.kind = .comment → (fun _ => false) token = false :=
    fun _ _ => rfl
  refine accept (fun _ => ?_) fun _ => ite (absurd · Bool.false_ne_true) fun _ =>
    look (ite (fun _ => ?_) fun other => ?_)
  · refine bind (featureValue_quietly written noStop) fun value after _ => ?_
    refine reportIf fun filled => pure fun empty => ?_
    obtain rfl := Option.some.inj empty
    exact absurd filled Bool.noConfusion
  · exact pure fun empty => absurd empty.symm (Option.some_ne_none _)
  · refine returning (featureValue_quietly written noStop) fun value after vacant empty => ?_
    have inner : parser.current.kind ≠ .closeParen := fun is => other (currentIs_iff.2 is)
    exact (vacant (Option.some.inj empty)).structural plain inner rfl

theorem mediaFeature_quietly :
    mediaFeature.Quietly tokens parser fun found _ => IfAny Feature.Filled found := by
  refine after (after (current (ite (fun _ => after (pastComments ?_)) fun _ => report)))
  intro here plain _
  refine bind (mediaFeatureValue_quietly written plain) fun value after cut => ?_
  refine bind closeFeature_quietly fun _ _ closes => pure (IfAny.some fun empty => ?_)
  exact absurd (cut empty) (by simp [Token.isStructural, closes])

theorem mediaExpression_quietly :
    mediaExpression.Quietly tokens parser fun expression _ => expression.Filled := by
  refine after (after (after (after ?_)))
  refine bind (conjuncts_quietly fun parser => ?_) fun features _ filled => after (pure filled)
  exact map (mediaFeature_quietly written) fun _ _ => IfAny.toList

theorem mediaQuery_quietly :
    mediaQuery.Quietly tokens parser fun query _ => query.Filled := by
  refine after (current (ite (fun _ => pure Each.nil) fun _ => ?_))
  have others (parser : Parser) :
      (collect (fun token => token.kind != .comma) nextExpression).Quietly tokens parser
        fun found _ => Each MediaExpression.Filled found :=
    collect_each fun _ _ =>
      after (after (returning (mediaExpression_quietly written) fun _ _ => Each.single))
  refine bind (mediaExpression_quietly written) fun first parser filled => ?_
  exact returning (others parser) fun _ _ each => (Each.single filled).append each

/-- The value of a container feature is empty only where the feature is cut short, or after a colon
with nothing behind it. -/
theorem containerFeatureValue_quietly (plain : parser.current.kind ≠ .comment) :
    containerFeatureValue.Quietly tokens parser fun value after =>
      value = some [] → after.current.isStructural = true ∨ BareColon parser.ahead := by
  have noStop : ∀ token : Token, token.kind = .comment → isAnd token = false := by
    intro token comment
    simp [isAnd, Token.isWord, comment]
  refine accept (fun colon => ?_) fun _ => ite (absurd · Bool.false_ne_true) fun _ => ?_
  · refine returning (featureValue_quietly written noStop) fun value after vacant empty => ?_
    rcases vacant (Option.some.inj empty) with structural | ⟨last, more, first, closing⟩
    · exact .inl structural
    · have notEnd := kind_ne_eof_of_eq colon nofun
      refine .inr ⟨parser.current, last, more, ?_, colon, closing⟩
      rw [Parser.ahead_eq_skip notEnd, kept_cons plain]
      exact congrArg _ first
  · refine current (ite (fun _ => pure ?_) fun other => ?_)
    · exact fun empty => absurd empty.symm (Option.some_ne_none _)
    refine returning (featureValue_quietly written noStop) fun value after vacant empty => ?_
    obtain ⟨inner, going⟩ := not_or.1 other
    exact .inl ((vacant (Option.some.inj empty)).structural plain inner (Bool.eq_false_iff.2 going))

theorem containerFeature_quietly (name : parser.current.kind = .ident) :
    (containerFeature parser.current).Quietly tokens parser fun found after =>
      after.current.isStructural = true ∨ Each (Sized tokens) found := by
  refine within fun last => after (pastComments fun here plain same => ?_)
  refine returning (containerFeatureValue_quietly written plain) fun value after holes => ?_
  by_cases empty : value = some []
  · refine (holes empty).imp id fun bare => Each.single (.inr ⟨parser.current, _, ?_, name, rfl,
      bare.of_kept same⟩)
    have split := Parser.ahead_eq_skip (kind_ne_eof_of_eq name nofun)
    exact split ▸ last.isInfix
  · exact .inr (Each.single (.inl empty))

section Groups

variable {group : Reading ContainerCondition}
variable (inner : ∀ parser, group.Quietly tokens parser fun condition _ =>
  Each (Sized tokens) condition.features)
include inner

theorem containerPart_quietly : (containerPart group).Quietly tokens parser fun found after =>
    after.current.isStructural = true ∨ Each (Sized tokens) found := by
  have token : (containerToken group).Quietly tokens parser fun found after =>
      after.current.isStructural = true ∨ Each (Sized tokens) found := by
    apply Quietly.current
    split
    next name => exact ite (fun _ => after (pure (.inr Each.nil))) fun _ =>
      containerFeature_quietly written name
    next => exact map (inner _) fun _ _ => .inr
    next => exact report
  refine bind token fun found here holds => after (pure ?_)
  exact holds.imp_left structural_skipComments

end Groups

theorem containerCondition_quietly (room : Nat) (parser : Parser) :
    (containerCondition room).Quietly tokens parser fun condition _ =>
      Each (Sized tokens) condition.features := by
  induction room generalizing parser with
  | zero => exact report
  | succ room ih =>
    have features (parser : Parser) :
        (collect endsContainerGroup (containerPart (containerCondition room))).Quietly tokens parser
          fun found after => after.current.isStructural = true ∨ Each (Sized tokens) found := by
      refine collect_quietly (fun found parser going before => ?_) (.inr Each.nil)
      have structural : parser.current.isStructural = false := (Bool.or_eq_false_iff.1 going).2
      have each := before.resolve_left (by simp [structural])
      exact (containerPart_quietly written ih).mono fun more after holds =>
        holds.imp_right each.append
    refine after (after (bind (features _) fun found after holds => expect fun closes => ?_))
    exact pure (holds.resolve_left (by simp [Token.isStructural, closes]))

theorem containerQuery_quietly : (containerQuery room).Quietly tokens parser fun query _ =>
    Each (fun condition => Each (Sized tokens) condition.features) query := by
  refine bind (conjuncts_quietly fun parser => ?_) fun query _ each => after (pure each)
  exact returning (containerCondition_quietly written room parser) fun _ _ each => Each.single each

end Written

end Features

section Conditions

theorem supportsDeclaration_quietly :
    (supportsDeclaration room).Quietly tokens parser fun condition _ => condition.Filled := by
  refine after (after (after (after (reportIf fun filled => pure ?_))))
  exact .declaration _ fun none => by simp [none] at filled

/-- A sequence of filled conditions is a filled condition. -/
theorem ofSequence_filled {conditions : List SupportsCondition}
    (inner : Each SupportsCondition.Filled conditions) :
    (SupportsCondition.ofSequence conditions).Filled := by
  unfold SupportsCondition.ofSequence
  split
  next => exact inner _ List.mem_cons_self
  next => exact .group inner

section Groups

variable {group : Reading (Option SupportsCondition)}
variable (inner : ∀ parser, group.Quietly tokens parser fun found _ =>
  IfAny SupportsCondition.Filled found)
include inner

theorem supportsNegation_quietly : (supportsNegation group).Quietly tokens parser fun found _ =>
    IfAny SupportsCondition.Filled found := by
  refine after (after (look (ite (fun _ => ?_) fun _ => report)))
  exact returning (inner _) fun _ _ found => found.map fun _ => .not

theorem supportsName_quietly {token : Token} :
    (supportsName room group token).Quietly tokens parser fun found _ =>
      Each SupportsCondition.Filled found := by
  refine ite (fun _ => ?_) fun _ => ite (fun _ => ?_) fun _ => look (ite (fun _ => ?_) fun _ =>
    look (ite (fun _ => ?_) fun _ => report))
  · exact after (pure (Each.single (.operator _)))
  · exact returning (supportsNegation_quietly inner) fun _ _ => IfAny.toList
  · exact returning supportsDeclaration_quietly fun _ _ => Each.single
  · exact after (pure (Each.single (.function _ _)))

theorem supportsSequence_quietly {terminator : Kind} :
    (supportsSequence room group terminator).Quietly tokens parser fun found _ =>
      Each SupportsCondition.Filled found := by
  refine collect_each fun parser _ => Quietly.current ?_
  split
  next => exact after (pure Each.nil)
  next => exact returning (inner _) fun _ _ => IfAny.toList
  next => exact supportsName_quietly inner
  next => exact report

end Groups

theorem supportsGroup_quietly (room : Nat) (parser : Parser) :
    (supportsGroup room).Quietly tokens parser fun found _ =>
      IfAny SupportsCondition.Filled found := by
  induction room generalizing parser with
  | zero => exact report
  | succ room ih =>
    refine after (bind (supportsSequence_quietly ih) fun conditions _ inner => ?_)
    refine after (after (pure ?_))
    split
    next => exact IfAny.none
    next => exact IfAny.some (ofSequence_filled inner)

theorem supportsCondition_quietly {terminator : Kind} :
    (supportsCondition room terminator).Quietly tokens parser fun condition _ =>
      condition.Filled :=
  map (supportsSequence_quietly (supportsGroup_quietly room)) fun _ _ => .group

end Conditions

section Statements

variable {sized : Feature → Prop}

/-- The clauses of an import as far as they were read. -/
structure ClausesFilled (clauses : ImportClauses) : Prop where
  supports : IfAny SupportsCondition.Filled clauses.supports
  media : IfAny MediaQuery.Filled clauses.media

theorem keepFirst_quietly {α : Type} {holds : α → Prop} {kept : Option α} {clause : α}
    {token : Token} (now : holds clause) :
    (keepFirst kept clause token).Quietly tokens parser fun found _ => IfAny holds found := by
  cases kept with
  | none => exact pure (IfAny.some now)
  | some first => exact reportAt

theorem supportsClause_quietly :
    (supportsClause room).Quietly tokens parser fun condition _ => condition.Filled :=
  after (after (bind supportsCondition_quietly fun _ _ filled => after (pure filled)))

theorem importClause_quietly (written : ∀ token ∈ tokens, token.literal ≠ [])
    {clauses : ImportClauses} (before : ClausesFilled clauses) :
    (importClause room clauses).Quietly tokens parser fun clauses _ => ClausesFilled clauses := by
  refine Quietly.current (ite (fun _ => ?_) fun _ => look (ite (fun _ => ?_) fun _ =>
    ite (fun _ => ?_) fun _ => report))
  · exact after (after (pure ⟨before.supports, before.media⟩))
  · refine bind supportsClause_quietly fun condition _ filled => ?_
    exact returning (keepFirst_quietly filled) fun _ _ kept => ⟨kept, before.media⟩
  · exact returning (mediaQuery_quietly written) fun _ _ filled =>
      ⟨before.supports, IfAny.some filled⟩

theorem importRule_quietly (written : ∀ token ∈ tokens, token.literal ≠ []) :
    (importRule room).Quietly tokens parser fun found _ => IfAny (Node.Filled sized) found := by
  apply after
  split
  next => exact report
  next address _ =>
    have steps (clauses : ImportClauses) (parser : Parser)
        (_ : parser.current.isStructural = false) (before : ClausesFilled clauses) :
        (separatedClause room clauses).Quietly tokens parser fun clauses _ =>
          ClausesFilled clauses :=
      bind (importClause_quietly written before) fun _ _ kept => after (pure kept)
    have none : ClausesFilled ⟨none, none, none⟩ := ⟨IfAny.none, IfAny.none⟩
    refine after (bind (iterate_quietly steps none) fun clauses _ filled => after (pure ?_))
    exact IfAny.some (.importRule _ _ filled.supports filled.media)

end Statements

section Plain

variable {sized : Feature → Prop}

/-- A block of declarations makes a node that holds no rules. -/
theorem declarationRule_quietly {place : String} {rule : List Declaration → Node}
    (flat : ∀ declarations, (rule declarations).isPlain = true) :
    (do return (← declarationBlock room place).map rule).Quietly tokens parser fun found _ =>
      IfAny (Node.Filled sized) found := by
  refine after (pure fun node member => ?_)
  obtain ⟨declarations, -, rfl⟩ := Option.map_eq_some_iff.1 member
  exact .plain (flat declarations)

theorem charset_quietly :
    charset.Quietly tokens parser fun found _ => IfAny (Node.Filled sized) found := by
  refine Quietly.current (ite (fun _ => ?_) fun _ => report)
  exact after (after (pure (IfAny.some (.plain rfl))))

theorem namespaceRule_quietly :
    (namespaceRule room).Quietly tokens parser fun found _ => IfAny (Node.Filled sized) found := by
  refine after (after ?_)
  split
  next => exact report
  next => exact after (after (pure (IfAny.some (.plain rfl))))

theorem counterStyle_quietly :
    (counterStyle room).Quietly tokens parser fun found _ => IfAny (Node.Filled sized) found := by
  refine Quietly.current (ite (fun _ => ?_) fun _ => report)
  exact after (after (declarationRule_quietly fun _ => rfl))

theorem colorProfile_quietly :
    (colorProfile room).Quietly tokens parser fun found _ => IfAny (Node.Filled sized) found := by
  apply Quietly.current
  split
  next => exact after (after (declarationRule_quietly fun _ => rfl))
  next => exact report

theorem blockWith_quietly {α : Type} {prelude : String} {body : Reading α} {holds : α → Prop}
    (inner : ∀ parser, body.Quietly tokens parser fun found _ => holds found) :
    (blockWith prelude body).Quietly tokens parser fun found _ => IfAny holds found :=
  expect fun _ => returning (inner _) fun _ _ => IfAny.some

theorem keyframes_quietly {webkit : Bool} :
    (keyframes room webkit).Quietly tokens parser fun found _ =>
      IfAny (Node.Filled sized) found := by
  apply Quietly.current
  split
  next =>
    refine after (after (blockWith_quietly fun parser => ?_))
    exact fun _ _ => .plain rfl
  next => exact report

theorem fontFeatureValues_quietly :
    (fontFeatureValues room).Quietly tokens parser fun found _ =>
      IfAny (Node.Filled sized) found := by
  refine after (look (ite (fun _ => reportIf fun filled => ?_) fun _ => report))
  refine after (after (pure (IfAny.some (.fontFeatureValues _ fun none => ?_))))
  rw [none] at filled
  exact Bool.noConfusion filled

end Plain

section Rules

variable {sized : Feature → Prop}

/-- Where a rule-set may start, the first atom is there. -/
theorem selectorAtom_quietly (starts : startsRuleSet parser.current.kind = true) :
    selectorAtom.Quietly tokens parser fun atoms _ => atoms ≠ [] := by
  have single (kind : SelectorKind) (token : Token) :
      (tokenAtom kind token).Quietly tokens parser fun atoms _ => atoms ≠ [] :=
    after (pure (List.cons_ne_nil _ _))
  have marked (mark : Token) (kind : SelectorKind) (place : String) :
      (markedName mark kind place).Quietly tokens parser fun atoms _ => atoms ≠ [] := by
    refine after (Quietly.current (ite (fun _ => ?_) fun _ => report))
    exact after (pure (List.cons_ne_nil _ _))
  have pseudo (colons : Token) :
      (pseudoAtom colons).Quietly tokens parser fun atoms _ => atoms ≠ [] := by
    refine after (Quietly.current (ite (fun _ => ?_) fun _ => report))
    exact after (after (pure (List.cons_ne_nil _ _)))
  apply Quietly.current
  split
  next comment =>
    rw [comment] at starts
    exact Bool.noConfusion starts
  next => exact single _ _
  next => exact single _ _
  next => exact marked _ _ _
  next => exact marked _ _ _
  next => exact single _ _
  next => exact after (pure (List.cons_ne_nil _ _))
  next => exact pseudo _
  next => exact pseudo _
  next => exact single _ _
  next => exact single _ _
  next => exact single _ _
  next => exact single _ _
  next => exact report

theorem selectors_quietly (starts : startsRuleSet parser.current.kind = true) :
    (collect Token.isStructural selectorAtom).Quietly tokens parser fun atoms after =>
      atoms ≠ [] ∨ startsRuleSet after.current.kind = true := by
  refine collect_quietly (fun atoms parser _ before => ?_) (.inr starts)
  rcases before with some | starts
  · exact fun _ _ => .inl (List.append_ne_nil_of_left_ne_nil some _)
  · exact (selectorAtom_quietly starts).mono fun _ _ more =>
      .inl (List.append_ne_nil_of_right_ne_nil _ more)

/-- A rule-set that is read where one may start has a selector. -/
theorem ruleSetWith_quietly {block : Reading (Option (List Node))}
    (inner : ∀ parser, block.Quietly tokens parser fun found _ =>
      IfAny (Each (Node.Filled sized)) found)
    (starts : startsRuleSet parser.current.kind = true) :
    (ruleSetWith block).Quietly tokens parser fun found _ => IfAny (Node.Filled sized) found := by
  refine bind (selectors_quietly starts) fun selectors after atoms => ?_
  refine look (ite (fun opens => ?_) fun _ => report)
  rw [currentIs_iff.1 opens] at atoms
  exact returning (inner _) fun _ _ found => found.map fun _ each =>
    .ruleSet (atoms.resolve_right Bool.false_ne_true) each

theorem comment_quietly :
    (nodes comment).Quietly tokens parser fun found _ => Each (Node.Filled sized) found := by
  have found : comment.Quietly tokens parser fun found _ => IfAny (Node.Filled sized) found := by
    refine Quietly.current (after (look (pure ?_)))
    split
    next => exact IfAny.some (.plain rfl)
    next => exact IfAny.none
  exact map found fun _ _ => IfAny.toList

theorem blockBody_quietly {α : Type} {holds : α → Prop} {place : String}
    {member : Reading (List α)}
    (items : ∀ parser, member.Quietly tokens parser fun found _ => Each holds found) :
    (blockBody place member).Quietly tokens parser fun found _ => Each holds found :=
  bind (collect_each fun parser _ => items parser) fun _ _ each => after (pure each)

/-- What rules are read as: rule-sets where one may start, at-rules anywhere. -/
structure ReadsFilled (tokens : List Token) (sized : Feature → Prop)
    (ruleSet atRule : Reading (Option Node)) : Prop where
  ruleSet : ∀ parser : Parser, startsRuleSet parser.current.kind = true →
    ruleSet.Quietly tokens parser fun found _ => IfAny (Node.Filled sized) found
  atRule : ∀ parser, atRule.Quietly tokens parser fun found _ => IfAny (Node.Filled sized) found

section Inner

variable {ruleSet atRule : Reading (Option Node)} (reads : ReadsFilled tokens sized ruleSet atRule)
include reads

theorem styleMember_quietly {place : String} {other : Reading (List Node)}
    (others : ∀ parser, other.Quietly tokens parser fun found _ => Each (Node.Filled sized) found) :
    (styleMember room ruleSet atRule place other).Quietly tokens parser fun found _ =>
      Each (Node.Filled sized) found := by
  have nested (starts : startsRuleSet parser.current.kind = true) :
      (nodes ruleSet).Quietly tokens parser fun found _ => Each (Node.Filled sized) found :=
    map (reads.ruleSet parser starts) fun _ _ => IfAny.toList
  apply Quietly.current
  split
  next => exact after (pure Each.nil)
  next => exact comment_quietly
  next ident =>
    refine look (ite (fun _ => nested (ident ▸ rfl)) fun _ => after (pure fun node member => ?_))
    obtain ⟨content, -, rfl⟩ := List.mem_map.1 member
    exact .plain rfl
  next => exact report
  next => exact ite (fun starts => nested starts) fun _ => others _

theorem ruleSetBody_quietly :
    (ruleSetBody room ruleSet atRule).Quietly tokens parser fun found _ =>
      Each (Node.Filled sized) found :=
  blockBody_quietly fun _ => styleMember_quietly reads fun _ => report

theorem containerBody_quietly :
    (containerBody room ruleSet atRule).Quietly tokens parser fun found _ =>
      Each (Node.Filled sized) found :=
  blockBody_quietly fun _ => styleMember_quietly reads fun _ => report

theorem nestedRules_quietly {place : String} :
    (nestedRules ruleSet atRule place).Quietly tokens parser fun found _ =>
      Each (Node.Filled sized) found := by
  refine blockBody_quietly fun parser => Quietly.current ?_
  split
  next => exact after (pure Each.nil)
  next => exact comment_quietly
  next => exact map (reads.atRule _) fun _ _ => IfAny.toList
  next =>
    refine ite (fun starts => ?_) fun _ => report
    exact map (reads.ruleSet _ starts) fun _ _ => IfAny.toList

theorem supportsRule_quietly :
    (supportsRule room ruleSet atRule).Quietly tokens parser fun found _ =>
      IfAny (Node.Filled sized) found := by
  refine bind supportsCondition_quietly fun condition _ filled => blockWith_quietly fun _ => ?_
  exact map (nestedRules_quietly reads) fun _ _ each => .supports filled each

theorem layer_quietly :
    (layer ruleSet atRule).Quietly tokens parser fun found _ =>
      IfAny (Node.Filled sized) found := by
  refine after (look (ite (fun _ => ?_) fun _ => look (ite (fun _ => ?_) fun _ => report)))
  · refine reportIf fun filled => after (pure (IfAny.some (.layerStatement fun none => ?_)))
    rw [none] at filled
    exact Bool.noConfusion filled
  · exact after (returning (nestedRules_quietly reads) fun _ _ each =>
      IfAny.some (.layerBlock _ each))

variable (written : ∀ token ∈ tokens, token.literal ≠ [])
include written

theorem media_quietly :
    (media ruleSet atRule).Quietly tokens parser fun found _ =>
      IfAny (Node.Filled sized) found := by
  refine bind (mediaQuery_quietly written) fun query _ queried => blockWith_quietly fun _ => ?_
  exact map (nestedRules_quietly reads) fun _ _ each => .media queried each

end Inner

section Inner

variable {ruleSet atRule : Reading (Option Node)}
variable (reads : ReadsFilled tokens (Sized tokens) ruleSet atRule)
variable (written : ∀ token ∈ tokens, token.literal ≠ [])
include reads written

theorem container_quietly :
    (container room ruleSet atRule).Quietly tokens parser fun found _ =>
      IfAny (Node.Filled (Sized tokens)) found := by
  refine after (bind (containerQuery_quietly written) fun query _ features => ?_)
  refine blockWith_quietly fun _ => map (containerBody_quietly reads) fun _ _ each => ?_
  exact .container _ features each

theorem atRuleBody_quietly (name : Bytes) (rule : AtRule) (parser : Parser) :
    (atRuleBody room ruleSet atRule name rule).Quietly tokens parser fun found _ =>
      IfAny (Node.Filled (Sized tokens)) found := by
  cases rule with
  | media => exact media_quietly reads written
  | keyframes => exact keyframes_quietly
  | webkitKeyframes => exact keyframes_quietly
  | importRule => exact importRule_quietly written
  | charset => exact charset_quietly
  | fontFace => exact declarationRule_quietly fun _ => rfl
  | fontFeatureValues => exact fontFeatureValues_quietly
  | colorProfile => exact colorProfile_quietly
  | counterStyle => exact counterStyle_quietly
  | container => exact container_quietly reads written
  | supports => exact supportsRule_quietly reads
  | layer => exact layer_quietly reads
  | page => exact after (declarationRule_quietly fun _ => rfl)
  | namespaceRule => exact namespaceRule_quietly
  | viewport => exact declarationRule_quietly fun _ => rfl

end Inner

theorem atRuleWith_quietly {body : Bytes → AtRule → Reading (Option Node)}
    (inner : ∀ name rule parser, (body name rule).Quietly tokens parser fun found _ =>
      IfAny (Node.Filled sized) found) :
    (atRuleWith body).Quietly tokens parser fun found _ => IfAny (Node.Filled sized) found := by
  refine look (after (ite (fun _ => Quietly.current (look ?_)) fun _ => report))
  split
  next => exact reportAt
  next => exact after (after (inner _ _ _))

theorem readsFilled (written : ∀ token ∈ tokens, token.literal ≠ []) (room : Nat) :
    ReadsFilled tokens (Sized tokens) (ruleSet room) (atRule room) := by
  induction room with
  | zero =>
    constructor
    · exact fun parser starts => ruleSetWith_quietly (fun _ => report) starts
    · exact fun parser => report
  | succ room inner =>
    constructor
    · intro parser starts
      refine ruleSetWith_quietly (fun parser => ?_) starts
      exact after (returning (ruleSetBody_quietly inner) fun _ _ => IfAny.some)
    · exact fun parser => atRuleWith_quietly (atRuleBody_quietly inner written)

theorem stylesheet_quietly (written : ∀ token ∈ tokens, token.literal ≠ []) :
    (stylesheet room).Quietly tokens parser fun sheet _ =>
      Each (Node.Filled (Sized tokens)) sheet.rules := by
  have reads := readsFilled written room
  refine returning (collect_each fun parser _ => Quietly.current ?_) fun _ _ each => each
  split
  next => exact comment_quietly
  next => exact map (reads.atRule _) fun _ _ => IfAny.toList
  next =>
    refine ite (fun starts => ?_) fun _ => report
    exact map (reads.ruleSet _ starts) fun _ _ => IfAny.toList

end Rules

end Grammar

/-- A parse without a problem yields no node with a hole in it, apart from container features after
whose colon nothing stands. -/
theorem parse_filled (options : Options) (source : Bytes) (unlimited : options.maxErrors = none)
    (clean : (Report.ofSource options source).errors = []) :
    ∀ rule ∈ (Report.ofSource options source).stylesheet.rules,
      rule.Filled fun feature => feature.Filled ∨ feature.Bare (tokenize source) := by
  obtain ⟨front, stop, split, _, noEnd⟩ := (tokenize_tiles source).lossless.finish
  have start : Parser.ofTokens options.settings (tokenize source) =
      ⟨options.settings, front, stop, []⟩ := by
    rw [split, ofTokens_eq]
  unfold Report.ofSource Report.ofTokens at clean ⊢
  rw [start] at clean ⊢
  have written : ∀ token ∈ front, token.literal ≠ [] := by
    intro token member
    have among : token ∈ tokenize source := split ▸ List.mem_append_left _ member
    exact (tokenize_spelled source token among (noEnd token member)).written
  have each := (Grammar.stylesheet_quietly written).holds List.suffix_rfl unlimited clean
  intro rule member
  refine (each rule member).mono fun feature sized => sized.imp id ?_
  rintro ⟨name, rest, among, is⟩
  exact ⟨name, rest, among.trans (split ▸ (List.prefix_append _ _).isInfix), is⟩

/-- Rules of many kinds, and among them a container feature with a value and one without. -/
theorem parse_filled_nested :
    ∃ options source, options.maxErrors = none ∧ (Report.ofSource options source).errors = [] ∧
      ((Report.ofSource options source).stylesheet.rules.flatMap
        Node.containerFeatures).length = 2 ∧
      ∀ rule ∈ (Report.ofSource options source).stylesheet.rules,
        rule.Filled fun feature => feature.Filled ∨ feature.Bare (tokenize source) := by
  let options : Options := ⟨false, none, .empty, []⟩
  let source := utf8 ("@media (a: b) \x7b .c \x7b d: e; f \x7b \x7d \x7d \x7d "
    ++ "@container (g: h) and (i) \x7b j \x7b \x7d \x7d "
    ++ "@supports not (k: l) \x7b @layer m; \x7d "
    ++ "@font-feature-values n \x7b @o \x7b p: q \x7d \x7d")
  have clean : (Report.ofSource options source).errors = [] := by decide +kernel
  exact ⟨options, source, rfl, clean, by decide +kernel, parse_filled options source rfl clean⟩

/-- A container feature with nothing after its colon is no problem, and its value is empty. -/
theorem container_feature_hollow :
    ¬∀ (options : Options) (source : Bytes), options.maxErrors = none →
      (Report.ofSource options source).errors = [] →
        ∀ rule ∈ (Report.ofSource options source).stylesheet.rules, rule.Filled Feature.Filled := by
  intro always
  let options : Options := ⟨false, none, .empty, []⟩
  let source := utf8 "@container (width:) \x7b \x7d"
  have filled := always options source rfl (by decide +kernel)
  have features : (Report.ofSource options source).stylesheet.rules.flatMap Node.containerFeatures =
      [⟨utf8 "width", some []⟩] := by
    decide +kernel
  obtain ⟨rule, among, member⟩ :=
    List.mem_flatMap.1 (features ▸ List.mem_singleton_self (Feature.mk (utf8 "width") (some [])))
  exact (filled rule among).containerFeatures _ member rfl

end CssSyntax

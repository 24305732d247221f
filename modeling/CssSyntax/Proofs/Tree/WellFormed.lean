import CssSyntax.Proofs.Grammar.Progress
import CssSyntax.Proofs.Parser.Yield
import CssSyntax.Report

/-! Well-formed trees. Each list of rules holds the kinds of node that belong there, nothing that
needs a content is empty, and blocks and parentheses are no deeper than the room that was there for
them. A parse yields well-formed trees only, also where its source is broken: what does not fit is
dropped and never kept in a place where it does not belong. -/

namespace CssSyntax

/-- The parentheses of the value fit in `room`. A call that found none is kept without arguments,
and an unquoted url needs none for its content. -/
inductive Value.Fits : Nat → Value → Prop
  | basic {room : Nat} (bytes : Bytes) : Fits room (.basic bytes)
  | string {room : Nat} (literal : StringLiteral) : Fits room (.string literal)
  | refused {room : Nat} (name : Bytes) : Fits room (.function name [])
  | url {room : Nat} (name : Bytes) {content : Value}
      (plain : ∀ callee args, content ≠ .function callee args) :
      Fits room (.function name [content])
  | call {room : Nat} (name : Bytes) {args : List Value} (inner : ∀ arg ∈ args, Fits room arg) :
      Fits (room + 1) (.function name args)

/-- A declaration has a name, and it has a value unless it is that of a custom property. -/
structure Declaration.WellFormed (room : Nat) (declaration : Declaration) : Prop where
  named : declaration.key ≠ []
  filled : declaration.value ≠ [] ∨ utf8 "--" <+: declaration.key
  values : ∀ value ∈ declaration.value, value.Fits room

/-- How an atom of the kind is written. -/
def SelectorKind.Shapes (value : Bytes) : SelectorKind → Prop
  | element => value ≠ []
  | className => utf8 "." <+: value
  | idName => utf8 "#" <+: value
  | attributeMatch => ∃ test, value = utf8 "[" ++ test ++ utf8 "]"
  | pseudo => utf8 ":" <+: value
  | combinator => value ∈ [utf8 ",", utf8 ">", utf8 "+", utf8 "~"]

def SelectorAtom.WellFormed (atom : SelectorAtom) : Prop := atom.kind.Shapes atom.value

/-- A stop stands somewhere. -/
structure KeyframeStop.WellFormed (room : Nat) (stop : KeyframeStop) : Prop where
  placed : stop.stops ≠ []
  declarations : ∀ declaration ∈ stop.declarations, declaration.WellFormed room

/-- One modifier at most. -/
def MediaExpression.WellFormed (expression : MediaExpression) : Prop :=
  ¬(expression.isNot = true ∧ expression.isOnly = true)

def MediaQuery.WellFormed (query : MediaQuery) : Prop :=
  ∀ expression ∈ query.expressions, expression.WellFormed

/-- A condition inside another one. A group of a single condition is not kept as a group. -/
inductive SupportsCondition.Inner (room : Nat) : SupportsCondition → Prop
  | declaration (key : Bytes) {value : List Value} (values : ∀ entry ∈ value, entry.Fits room) :
      Inner room (.declaration key value)
  | function {name : Bytes} {args : List Value} (fits : (Value.function name args).Fits room) :
      Inner room (.function name args)
  | operator (word : Bytes) : Inner room (.operator word)
  | not {inner : SupportsCondition} (negated : Inner room inner) : Inner room (.not inner)
  | group {conditions : List SupportsCondition} (several : 2 ≤ conditions.length)
      (inner : ∀ condition ∈ conditions, Inner room condition) : Inner room (.group conditions)

/-- A whole condition is a group, of any number of conditions. -/
def SupportsCondition.WellFormed (room : Nat) (condition : SupportsCondition) : Prop :=
  ∃ conditions, condition = .group conditions ∧ ∀ inner ∈ conditions, inner.Inner room

/-- Only the device's own color space has no name, and a name is dashed. -/
def ProfileName.WellFormed : ProfileName → Prop
  | deviceCmyk => True
  | dashed name => utf8 "--" <+: name

/-- True of what may stand in a list of rules: all but declarations. -/
def Node.isRule (node : Node) : Bool := node.kind != .declaration

/-- True of what may stand in the block of a rule-set: all but at-rules. -/
def Node.isStyle (node : Node) : Bool := !node.isAtRule

/-- A well-formed node whose blocks and parentheses fit in `room`. -/
inductive Node.WellFormed : Nat → Node → Prop
  | comment {room : Nat} (text : Bytes) : WellFormed room (.comment text)
  | ruleSet {room : Nat} {selectors : List SelectorAtom} {rules : List Node}
      (atoms : ∀ atom ∈ selectors, atom.WellFormed) (members : ∀ rule ∈ rules, rule.isStyle)
      (inner : ∀ rule ∈ rules, WellFormed room rule) :
      WellFormed (room + 1) (.ruleSet selectors rules)
  | declaration {room : Nat} {content : Declaration} (is : content.WellFormed room) :
      WellFormed room (.declaration content)
  | media {room : Nat} {query : MediaQuery} {rules : List Node} (queried : query.WellFormed)
      (members : ∀ rule ∈ rules, rule.isRule) (inner : ∀ rule ∈ rules, WellFormed room rule) :
      WellFormed (room + 1) (.media query rules)
  | keyframes {room : Nat} (name : Bytes) (webkit : Bool) {stops : List KeyframeStop}
      (stopped : ∀ stop ∈ stops, stop.WellFormed room) :
      WellFormed (room + 1) (.keyframes name webkit stops)
  | importRule {room : Nat} {url : Value} {layer : Option Value}
      {supports : Option SupportsCondition} {media : Option MediaQuery} (address : url.Fits room)
      (layered : ∀ value ∈ layer, value.Fits room)
      (supported : ∀ condition ∈ supports, condition.WellFormed room)
      (queried : ∀ query ∈ media, query.WellFormed) :
      WellFormed (room + 1) (.importRule url layer supports media)
  | charset {room : Nat} (name : Bytes) : WellFormed (room + 1) (.charset name)
  | fontFace {room : Nat} {declarations : List Declaration}
      (declared : ∀ declaration ∈ declarations, declaration.WellFormed room) :
      WellFormed (room + 1) (.fontFace declarations)
  | fontFeatureValues {room : Nat} (families : List Bytes) {blocks : List FeatureBlock}
      (declared : ∀ block ∈ blocks, ∀ declaration ∈ block.declarations,
        declaration.WellFormed room) :
      WellFormed (room + 1) (.fontFeatureValues families blocks)
  | colorProfile {room : Nat} {profile : ProfileName} {declarations : List Declaration}
      (named : profile.WellFormed)
      (declared : ∀ declaration ∈ declarations, declaration.WellFormed room) :
      WellFormed (room + 1) (.colorProfile profile declarations)
  | counterStyle {room : Nat} (name : Bytes) {declarations : List Declaration}
      (declared : ∀ declaration ∈ declarations, declaration.WellFormed room) :
      WellFormed (room + 1) (.counterStyle name declarations)
  | container {room : Nat} (name : Option Bytes) (query : List ContainerCondition)
      {rules : List Node} (members : ∀ rule ∈ rules, rule.isStyle)
      (inner : ∀ rule ∈ rules, WellFormed room rule) :
      WellFormed (room + 1) (.container name query rules)
  | supports {room : Nat} {condition : SupportsCondition} {rules : List Node}
      (supported : condition.WellFormed room) (members : ∀ rule ∈ rules, rule.isRule)
      (inner : ∀ rule ∈ rules, WellFormed room rule) :
      WellFormed (room + 1) (.supports condition rules)
  | layerStatement {room : Nat} (names : List Bytes) : WellFormed (room + 1) (.layerStatement names)
  | layerBlock {room : Nat} (names : List Bytes) {rules : List Node}
      (members : ∀ rule ∈ rules, rule.isRule) (inner : ∀ rule ∈ rules, WellFormed room rule) :
      WellFormed (room + 1) (.layerBlock names rules)
  | page {room : Nat} (selector : Option Bytes) {declarations : List Declaration}
      (declared : ∀ declaration ∈ declarations, declaration.WellFormed room) :
      WellFormed (room + 1) (.page selector declarations)
  | namespaceRule {room : Nat} (label : Option Bytes) {url : Value} (address : url.Fits room) :
      WellFormed (room + 1) (.namespaceRule label url)
  | viewport {room : Nat} (name : Bytes) {declarations : List Declaration}
      (declared : ∀ declaration ∈ declarations, declaration.WellFormed room) :
      WellFormed (room + 1) (.viewport name declarations)

def Stylesheet.WellFormed (room : Nat) (sheet : Stylesheet) : Prop :=
  ∀ rule ∈ sheet.rules, rule.isRule ∧ rule.WellFormed room

namespace Grammar

open Reading Gives

variable {parser : Parser} {room : Nat}

section Values

/-- As the arguments of any call they fit. -/
def ArgumentsFit (room : Nat) (args : List Value) : Prop :=
  ∀ name, (Value.function name args).Fits room

theorem uriContent_plain (inner callee : Bytes) (args : List Value) :
    Value.uriContent inner ≠ .function callee args := by
  unfold Value.uriContent
  split
  next => exact Value.noConfusion
  next => exact Value.noConfusion

theorem ofUri_fits (literal : Bytes) : (Value.ofUri literal).Fits room :=
  .url _ (uriContent_plain _)

theorem tokenValue_yields {meaning : Bytes → Value} {holds : Value → Prop}
    (fits : ∀ literal, holds (meaning literal)) : (tokenValue meaning).Yields parser holds :=
  fun _ => fits _

theorem markValue_yields : markValue.Yields parser (Value.Fits room) := by
  refine look (ite (fun _ => ?_) fun _ => tokenValue_yields .basic)
  exact fun _ => .basic _

section Calls

variable {arguments : Reading (List Value)}
variable (inner : ∀ parser, arguments.Yields parser (ArgumentsFit room))
include inner

theorem callWith_yields : (callWith arguments).Yields parser (Value.Fits room) :=
  after (after (after (returning (inner _) fun _ fits => fits _)))

theorem groupValue_yields : (groupValue arguments).Yields parser (Value.Fits room) :=
  after (returning (inner _) fun _ fits => fits _)

theorem valueWith_yields : (valueWith arguments).Yields parser (IfAny (Value.Fits room)) := by
  have some {reading : Reading Value} (fits : reading.Yields parser (Value.Fits room)) :
      (some <$> reading).Yields parser (IfAny (Value.Fits room)) :=
    map fits fun _ => IfAny.some
  have dropped : droppedValue.Yields parser (IfAny (Value.Fits room)) := fun _ => IfAny.none
  apply Gives.current
  split
  next => exact fun _ => IfAny.some (.basic _)
  next => exact some markValue_yields
  next => exact some markValue_yields
  next => exact some markValue_yields
  next =>
    exact some (look (ite (fun _ => callWith_yields inner) fun _ => tokenValue_yields .basic))
  next => exact some (tokenValue_yields ofUri_fits)
  next => exact some (tokenValue_yields fun _ => .string _)
  next => exact some (groupValue_yields inner)
  next => exact fun _ => IfAny.some (.basic _)
  next => exact dropped
  next => exact dropped
  next => exact dropped
  next => exact pure IfAny.none
  next => exact some (tokenValue_yields .basic)

end Calls

theorem separatedValue_yields {value : Reading (Option Value)}
    (inner : ∀ parser, value.Yields parser (IfAny (Value.Fits room))) :
    (separatedValue value).Yields parser (Each (Value.Fits room)) := by
  refine current (ite (fun _ => ?_) fun _ => ?_)
  · exact after (pure Each.nil)
  · exact returning (inner _) fun _ => IfAny.toList

theorem arguments_yields (room : Nat) (parser : Parser) :
    (arguments room).Yields parser (ArgumentsFit room) := by
  induction room generalizing parser with
  | zero => exact after (after (pure fun name => .refused name))
  | succ room ih =>
    have args : (collect endsArguments (separatedValue (valueWith (arguments room)))).Yields parser
        (Each (Value.Fits room)) :=
      collect_gives (fun _ _ => separatedValue_yields fun _ => valueWith_yields ih) parser
    exact bind args fun _ fits => after (pure fun name => .call name fits)

theorem value_yields : (value room).Yields parser (IfAny (Value.Fits room)) :=
  valueWith_yields (arguments_yields room)

theorem call_yields : (call room).Yields parser (Value.Fits room) :=
  callWith_yields (arguments_yields room)

end Values

section Declarations

/-- A part of a declaration whose value fits, if it is one. -/
def PartFits (room : Nat) (part : DeclarationPart) : Prop :=
  ∀ value ∈ part.value?, value.Fits room

theorem declarationPart_yields :
    (declarationPart (value room)).Yields parser (Each (PartFits room)) := by
  refine look (ite (fun _ => ?_) fun _ => ?_)
  · exact after (after (pure (Each.single fun _ none => absurd none (Option.not_mem_none _))))
  · refine returning (separatedValue_yields fun _ => value_yields) fun values fits part member => ?_
    obtain ⟨value, among, rfl⟩ := List.mem_map.1 member
    intro other is
    obtain rfl := Option.mem_some.1 is
    exact fits value among

theorem declarationBody_yields {key : Bytes} (named : key ≠ []) :
    (declarationBody room key).Yields parser (IfAny (Declaration.WellFormed room)) := by
  refine bind (collect_gives (fun _ _ => declarationPart_yields) _) fun parts fit => ?_
  refine ite (fun _ => after (pure IfAny.none)) fun some => pure (IfAny.some ?_)
  refine ⟨named, ?_, fun value member => ?_⟩
  · by_cases empty : parts.filterMap DeclarationPart.value? = []
    · have custom : isCustomProperty key = true := by simpa [empty] using some
      exact .inr (List.isPrefixOf_iff_prefix.1 custom)
    · exact .inl empty
  · obtain ⟨part, among, is⟩ := List.mem_filterMap.1 member
    exact fit part among value is

theorem declaration_yields :
    (declaration room).Yields parser (IfAny (Declaration.WellFormed room)) := by
  refine current (ite (fun name => ?_) fun _ => after (after (pure IfAny.none)))
  refine knowing (kind_ne_eof_of_eq name nofun) fun spelled => ?_
  refine after (after (ite (fun _ => ?_) fun _ => ?_))
  · exact declarationBody_yields spelled.written
  · exact after (pure IfAny.none)

theorem blockDeclaration_yields :
    (blockDeclaration room).Yields parser (Each (Declaration.WellFormed room)) := by
  refine current (ite (fun _ => after (pure Each.nil)) fun _ => ite (fun _ => ?_) fun _ => ?_)
  · exact returning declaration_yields fun _ => IfAny.toList
  · exact after (after (pure Each.nil))

section Blocks

variable {α β : Type} {such : Token → Prop} {holds : α → Prop} {place : String}

theorem blockBody_gives {member : Reading (List α)}
    (members : ∀ parser, endsBlock parser.current = false →
      member.Gives such parser (Each holds)) :
    (blockBody place member).Gives such parser (Each holds) :=
  bind (collect_gives members _) fun _ each => after (pure each)

theorem blockWith_gives {body : Reading α} (inner : ∀ parser, body.Gives such parser holds) :
    (blockWith place body).Gives such parser (IfAny holds) :=
  after (ite (fun _ => returning (inner _) fun _ => IfAny.some) fun _ => after (pure IfAny.none))

end Blocks

theorem declarationBlock_yields {place : String} :
    (declarationBlock room place).Yields parser (IfAny (Each (Declaration.WellFormed room))) :=
  blockWith_gives fun _ => blockBody_gives fun _ _ => blockDeclaration_yields

end Declarations

section Conditions

theorem mediaModifier_yields :
    mediaModifier.Yields parser fun modifier => ¬(modifier.1 = true ∧ modifier.2 = true) := by
  refine after (ite (fun _ => pure (by simp)) fun _ => after (ite (fun _ => ?_) fun _ => ?_))
  · exact pure (by simp)
  · exact pure (by simp)

theorem mediaExpression_yields : mediaExpression.Yields parser MediaExpression.WellFormed :=
  after (bind mediaModifier_yields fun _ single => after (after (after (after (pure single)))))

theorem nextExpression_yields :
    nextExpression.Yields parser (Each MediaExpression.WellFormed) :=
  after (after (returning mediaExpression_yields fun _ => Each.single))

theorem mediaQuery_yields : mediaQuery.Yields parser MediaQuery.WellFormed := by
  refine after (current (ite (fun _ => pure Each.nil) fun _ => ?_))
  have others (parser : Parser) :
      (collect (fun token => token.kind != .comma) nextExpression).Yields parser
        (Each MediaExpression.WellFormed) :=
    collect_gives (fun _ _ => nextExpression_yields) parser
  refine bind mediaExpression_yields fun first single => returning (others _) fun rest singles => ?_
  exact (Each.single single).append singles

theorem supportsValue_yields : (supportsValue room).Yields parser (Each (Value.Fits room)) := by
  refine look (ite (fun _ => ?_) fun _ => separatedValue_yields fun _ => value_yields)
  exact returning (tokenValue_yields .basic) fun _ => Each.single

theorem supportsDeclaration_yields :
    (supportsDeclaration room).Yields parser (SupportsCondition.Inner room) := by
  refine after (after (after ?_))
  refine bind (collect_gives (fun _ _ => supportsValue_yields) _) fun values fit => ?_
  exact after (pure (.declaration _ fit))

theorem supportsCall_yields :
    (supportsCall room).Yields parser (SupportsCondition.Inner room) :=
  after (after (after (returning (arguments_yields room _) fun _ fits => .function (fits _))))

theorem Value.Fits.mono {outer : Nat} {value : Value} (fits : value.Fits room)
    (wider : room ≤ outer) : value.Fits outer := by
  induction fits generalizing outer with
  | basic bytes => exact .basic bytes
  | string literal => exact .string literal
  | refused name => exact .refused name
  | url name plain => exact .url name plain
  | @call room name args inner ih =>
    obtain ⟨further, rfl⟩ : ∃ further, outer = further + 1 := ⟨outer - 1, by omega⟩
    exact .call name fun arg member => ih arg member (by omega)

theorem Inner.mono {outer : Nat} {condition : SupportsCondition} (is : condition.Inner room)
    (wider : room ≤ outer) : condition.Inner outer := by
  induction is with
  | declaration key values =>
    exact .declaration key fun entry member => Value.Fits.mono (values entry member) wider
  | function fits => exact .function (Value.Fits.mono fits wider)
  | operator word => exact .operator word
  | not negated ih => exact .not ih
  | group several inner ih => exact .group several ih

theorem ofSequence_inner {conditions : List SupportsCondition} (filled : conditions ≠ [])
    (inner : Each (SupportsCondition.Inner room) conditions) :
    (SupportsCondition.ofSequence conditions).Inner room := by
  unfold SupportsCondition.ofSequence
  split
  next condition => exact inner condition List.mem_cons_self
  next several =>
    refine .group ?_ inner
    match conditions, filled, several with
    | [condition], _, several => exact absurd rfl (several condition)
    | _ :: _ :: _, _, _ => simp

section Groups

variable {group : Reading (Option SupportsCondition)}
variable (inner : ∀ parser, group.Yields parser (IfAny (SupportsCondition.Inner room)))
include inner

theorem supportsNegation_yields :
    (supportsNegation group).Yields parser (IfAny (SupportsCondition.Inner room)) := by
  refine after (after (look (ite (fun _ => ?_) fun _ => after (pure IfAny.none))))
  exact returning (inner _) fun _ each => each.map fun _ => .not

theorem supportsName_yields {token : Token} :
    (supportsName room group token).Yields parser (Each (SupportsCondition.Inner room)) := by
  refine ite (fun _ => ?_) fun _ => ite (fun _ => ?_) fun _ => look (ite (fun _ => ?_) fun _ =>
    look (ite (fun _ => ?_) fun _ => fun _ => Each.nil))
  · exact fun _ => Each.single (.operator _)
  · exact returning (supportsNegation_yields inner) fun _ => IfAny.toList
  · exact returning supportsDeclaration_yields fun _ => Each.single
  · exact returning supportsCall_yields fun _ => Each.single

theorem supportsSequence_yields (terminator : Kind) :
    (supportsSequence room group terminator).Yields parser
      (Each (SupportsCondition.Inner room)) := by
  refine collect_gives (fun parser _ => current ?_) parser
  split
  next => exact after (pure Each.nil)
  next => exact returning (inner _) fun _ => IfAny.toList
  next => exact supportsName_yields inner
  next => exact fun _ => Each.nil

end Groups

theorem supportsGroup_yields (room : Nat) (parser : Parser) :
    (supportsGroup room).Yields parser (IfAny (SupportsCondition.Inner room)) := by
  induction room generalizing parser with
  | zero => exact fun _ => IfAny.none
  | succ room ih =>
    refine after (bind (supportsSequence_yields ih .closeParen) fun conditions inner => ?_)
    refine after (after (pure ?_))
    split
    next => exact IfAny.none
    next filled =>
      refine IfAny.some (Inner.mono (ofSequence_inner ?_ inner) (Nat.le_succ room))
      exact fun none => filled (List.isEmpty_iff.2 none)

theorem supportsCondition_yields (terminator : Kind) :
    (supportsCondition room terminator).Yields parser (SupportsCondition.WellFormed room) :=
  map (supportsSequence_yields (supportsGroup_yields room) terminator) fun conditions inner =>
    ⟨conditions, rfl, inner⟩

end Conditions

section Statements

theorem url_yields : (url room).Yields parser (IfAny (Value.Fits room)) :=
  after (look (ite (fun _ => value_yields) fun _ => pure IfAny.none))

/-- The clauses of an import as far as they were read. -/
structure ClausesWellFormed (room : Nat) (clauses : ImportClauses) : Prop where
  layer : IfAny (Value.Fits room) clauses.layer
  supports : IfAny (SupportsCondition.WellFormed room) clauses.supports
  media : IfAny MediaQuery.WellFormed clauses.media

theorem layerClause_yields : (layerClause room).Yields parser (Value.Fits room) :=
  look (ite (fun _ => call_yields) fun _ => tokenValue_yields .basic)

theorem supportsClause_yields :
    (supportsClause room).Yields parser (SupportsCondition.WellFormed room) :=
  after (after (bind (supportsCondition_yields .closeParen) fun _ is => after (pure is)))

theorem keepFirst_gives {α : Type} {such : Token → Prop} {holds : α → Prop} {kept : Option α}
    {clause : α} {token : Token} (before : IfAny holds kept) (now : holds clause) :
    (keepFirst kept clause token).Gives such parser (IfAny holds) := by
  cases kept with
  | none => exact pure (IfAny.some now)
  | some first => exact after (pure before)

theorem importClause_yields {clauses : ImportClauses} (before : ClausesWellFormed room clauses) :
    (importClause room clauses).Yields parser (ClausesWellFormed room) := by
  refine current (ite (fun _ => ?_) fun _ => after (ite (fun _ => ?_) fun _ => ite (fun _ => ?_)
    fun _ => after (after (pure before))))
  · refine bind layerClause_yields fun layer fits => ?_
    exact returning (keepFirst_gives before.layer fits) fun _ kept =>
      ⟨kept, before.supports, before.media⟩
  · refine bind supportsClause_yields fun condition is => ?_
    exact returning (keepFirst_gives before.supports is) fun _ kept =>
      ⟨before.layer, kept, before.media⟩
  · exact returning mediaQuery_yields fun _ is =>
      ⟨before.layer, before.supports, IfAny.some is⟩

/-- A well-formed at-rule, with room for it and what is inside. -/
def IsAtRule (room : Nat) (node : Node) : Prop := node.WellFormed room ∧ node.isAtRule = true

theorem importRule_yields :
    (importRule room).Yields parser (IfAny (IsAtRule (room + 1))) := by
  refine bind url_yields fun found fits => ?_
  cases found with
  | none => exact after (after (pure IfAny.none))
  | some address =>
    have steps (clauses : ImportClauses) (parser : Parser)
        (_ : parser.current.isStructural = false) (before : ClausesWellFormed room clauses) :
        (separatedClause room clauses).Yields parser (ClausesWellFormed room) :=
      Gives.bind (importClause_yields before) fun _ kept => after (pure kept)
    have none : ClausesWellFormed room ⟨none, none, none⟩ := ⟨IfAny.none, IfAny.none, IfAny.none⟩
    refine after (Gives.bind (iterate_gives steps none _) fun clauses is => after (pure ?_))
    exact IfAny.some ⟨.importRule (fits address rfl) is.layer is.supports is.media, rfl⟩

theorem charset_yields : charset.Yields parser (IfAny (IsAtRule (room + 1))) := by
  refine current (ite (fun _ => ?_) fun _ => after (after (pure IfAny.none)))
  exact after (after (pure (IfAny.some ⟨.charset _, rfl⟩)))

theorem namespaceRule_yields :
    (namespaceRule room).Yields parser (IfAny (IsAtRule (room + 1))) := by
  refine after (Gives.bind url_yields fun found fits => ?_)
  cases found with
  | none => exact after (after (pure IfAny.none))
  | some address =>
    exact after (after (pure (IfAny.some ⟨.namespaceRule _ (fits address rfl), rfl⟩)))

end Statements

section DeclarationRules

/-- A block of well-formed declarations makes a well-formed at-rule. -/
theorem declarationRule_yields {place : String} {rule : List Declaration → Node}
    (made : ∀ declarations, Each (Declaration.WellFormed room) declarations →
      IsAtRule (room + 1) (rule declarations)) :
    (do return (← declarationBlock room place).map rule).Yields parser
      (IfAny (IsAtRule (room + 1))) :=
  returning declarationBlock_yields fun _ found => found.map made

theorem fontFace_yields : (fontFace room).Yields parser (IfAny (IsAtRule (room + 1))) :=
  declarationRule_yields fun _ declared => ⟨.fontFace declared, rfl⟩

theorem counterStyle_yields : (counterStyle room).Yields parser (IfAny (IsAtRule (room + 1))) := by
  refine current (ite (fun _ => ?_) fun _ => after (after (pure IfAny.none)))
  exact after (after (declarationRule_yields fun _ declared => ⟨.counterStyle _ declared, rfl⟩))

theorem profileName_wellFormed {token : Token} {profile : ProfileName}
    (found : profileName token = some profile) : profile.WellFormed := by
  unfold profileName at found
  split at found
  · obtain rfl := Option.some.inj found
    trivial
  · split at found
    next dashed =>
      obtain rfl := Option.some.inj found
      exact List.isPrefixOf_iff_prefix.1 dashed.2
    next => cases found

theorem colorProfile_yields : (colorProfile room).Yields parser (IfAny (IsAtRule (room + 1))) := by
  apply Gives.current
  split
  next profile found =>
    exact after (after (declarationRule_yields fun _ declared =>
      ⟨.colorProfile (profileName_wellFormed found) declared, rfl⟩))
  next => exact after (after (pure IfAny.none))

theorem page_yields : (page room).Yields parser (IfAny (IsAtRule (room + 1))) :=
  after (declarationRule_yields fun _ declared => ⟨.page _ declared, rfl⟩)

theorem viewport_yields {name : Bytes} :
    (viewport room name).Yields parser (IfAny (IsAtRule (room + 1))) :=
  declarationRule_yields fun _ declared => ⟨.viewport name declared, rfl⟩

theorem stopBlock_yields {stops : List Bytes} :
    (stopBlock room stops).Yields parser (IfAny (KeyframeStop.WellFormed room)) := by
  refine after (bind declarationBlock_yields fun found declared => pure ?_)
  split
  next => exact IfAny.none
  next filled => exact declared.map fun _ each =>
      ⟨fun none => filled (List.isEmpty_iff.2 none), each⟩

theorem keyframeStop_yields :
    (keyframeStop room).Yields parser (IfAny (KeyframeStop.WellFormed room)) :=
  after (look (ite (fun _ => stopBlock_yields) fun _ => after (pure IfAny.none)))

theorem keyframesBody_yields :
    (keyframesBody room).Yields parser (Each (KeyframeStop.WellFormed room)) := by
  refine blockBody_gives fun parser _ => current (ite (fun _ => after (pure Each.nil)) fun _ => ?_)
  exact returning keyframeStop_yields fun _ => IfAny.toList

theorem keyframes_yields {webkit : Bool} :
    (keyframes room webkit).Yields parser (IfAny (IsAtRule (room + 1))) := by
  apply Gives.current
  split
  next name _ =>
    refine after (after (blockWith_gives fun parser => ?_))
    exact map keyframesBody_yields fun _ stopped => ⟨.keyframes name webkit stopped, rfl⟩
  next => exact after (after (pure IfAny.none))

theorem featureMember_yields :
    (featureMember room).Yields parser
      (Each fun block => Each (Declaration.WellFormed room) block.declarations) := by
  apply Gives.current
  split
  next => exact after (pure Each.nil)
  next => exact after (pure Each.nil)
  next =>
    refine returning (after (current (ite (fun _ => ?_) fun _ => ?_))) fun _ => IfAny.toList
    · exact after (after (returning declarationBlock_yields fun _ found =>
        found.map fun _ declared => declared))
    · exact after (after (pure IfAny.none))
  next => exact after (after (pure Each.nil))

theorem fontFeatureValues_yields :
    (fontFeatureValues room).Yields parser (IfAny (IsAtRule (room + 1))) := by
  refine after (look (ite (fun _ => ?_) fun _ => after (after (pure IfAny.none))))
  refine after (after (returning (blockBody_gives fun _ _ => featureMember_yields) ?_))
  exact fun _ declared => IfAny.some ⟨.fontFeatureValues _ declared, rfl⟩

end DeclarationRules

section Selectors

theorem kind_spelling {token : Token} {kind : Kind} {spelling : Bytes} (spelled : token.Spelled)
    (is : token.kind = kind) (fixed : kind.spelling? = some spelling) :
    token.literal = spelling := by
  subst is
  exact spelled.fixed spelling fixed

theorem tokenAtom_yields {kind : SelectorKind} {token : Token}
    (shaped : kind.Shapes token.literal) :
    (tokenAtom kind token).Yields parser (Each SelectorAtom.WellFormed) :=
  after (pure (Each.single shaped))

theorem markedName_yields {mark : Token} {kind : SelectorKind} {place : String}
    (shaped : ∀ name, kind.Shapes (mark.literal ++ name)) :
    (markedName mark kind place).Yields parser (Each SelectorAtom.WellFormed) := by
  refine after (current (ite (fun _ => ?_) fun _ => after (pure Each.nil)))
  exact after (pure (Each.single (shaped _)))

theorem pseudoAtom_yields {colons : Token} (shaped : utf8 ":" <+: colons.literal) :
    (pseudoAtom colons).Yields parser (Each SelectorAtom.WellFormed) := by
  refine after (current (ite (fun _ => ?_) fun _ => after (pure Each.nil)))
  refine after (after (pure (Each.single ?_)))
  exact shaped.trans ((List.prefix_append _ _).trans (List.prefix_append _ _))

theorem attributeAtom_yields : attributeAtom.Yields parser SelectorAtom.WellFormed :=
  after (after (after (pure ⟨_, rfl⟩)))

theorem selectorAtom_yields (going : parser.current.isStructural = false) :
    selectorAtom.Yields parser (Each SelectorAtom.WellFormed) := by
  have notEnd := kind_ne_eof_of_isStructural going
  refine knowing notEnd fun written => ?_
  apply Gives.current
  split
  next => exact after (pure Each.nil)
  next => exact tokenAtom_yields written.written
  next => exact tokenAtom_yields written.written
  next dot =>
    apply markedName_yields
    rw [kind_spelling written dot rfl]
    exact List.prefix_append _
  next hash =>
    apply markedName_yields
    rw [kind_spelling written hash rfl]
    exact List.prefix_append _
  next color =>
    obtain ⟨digits, split⟩ := List.head?_eq_some_iff.1 (written.color color)
    apply tokenAtom_yields
    rw [split]
    exact ⟨digits, rfl⟩
  next => exact returning attributeAtom_yields fun _ => Each.single
  next colon =>
    apply pseudoAtom_yields
    exact kind_spelling written colon rfl ▸ List.prefix_rfl
  next colons =>
    apply pseudoAtom_yields
    rw [kind_spelling written colons rfl]
    decide
  next comma =>
    exact tokenAtom_yields (by simp [kind_spelling written comma rfl, SelectorKind.Shapes])
  next greater =>
    exact tokenAtom_yields (by simp [kind_spelling written greater rfl, SelectorKind.Shapes])
  next plus =>
    exact tokenAtom_yields (by simp [kind_spelling written plus rfl, SelectorKind.Shapes])
  next tilde =>
    exact tokenAtom_yields (by simp [kind_spelling written tilde rfl, SelectorKind.Shapes])
  next => exact after (after (pure Each.nil))

/-- A rule-set of well-formed atoms, given what its block yields. -/
theorem ruleSetWith_yields {block : Reading (Option (List Node))} {holds : List Node → Prop}
    (inner : ∀ parser, block.Yields parser (IfAny holds))
    (made : ∀ selectors rules, Each SelectorAtom.WellFormed selectors → holds rules →
      (Node.ruleSet selectors rules).WellFormed room) :
    (ruleSetWith block).Yields parser
      (IfAny fun node => node.WellFormed room ∧ node.kind = .ruleSet) := by
  refine bind (collect_gives (fun _ going => selectorAtom_yields going) _) ?_
  intro selectors shaped
  refine look (ite (fun _ => ?_) fun _ => after (pure IfAny.none))
  exact returning (inner _) fun _ found => found.map fun rules is =>
    ⟨made selectors rules shaped is, rfl⟩

end Selectors

section Rules

/-- A well-formed rule-set, with room for it and what is inside. -/
def IsRuleSet (room : Nat) (node : Node) : Prop := node.WellFormed room ∧ node.kind = .ruleSet

/-- A well-formed node that may stand in the block of a rule-set. -/
def IsStyle (room : Nat) (node : Node) : Prop := node.WellFormed room ∧ node.isStyle = true

/-- A well-formed node that may stand in a list of rules. -/
def IsRule (room : Nat) (node : Node) : Prop := node.WellFormed room ∧ node.isRule = true

theorem IsAtRule.rule {node : Node} (is : IsAtRule room node) : IsRule room node := by
  refine ⟨is.1, ?_⟩
  have atRule := is.2
  cases node <;> first | rfl | cases atRule

theorem IsRuleSet.rule {node : Node} (is : IsRuleSet room node) : IsRule room node :=
  ⟨is.1, by simp [Node.isRule, is.2]⟩

theorem IsRuleSet.style {node : Node} (is : IsRuleSet room node) : IsStyle room node := by
  refine ⟨is.1, ?_⟩
  have ruleSet := is.2
  cases node <;> first | rfl | cases ruleSet

theorem comment_gives {such : Token → Prop} {holds : Node → Prop}
    (kept : ∀ text, holds (.comment text)) :
    (nodes comment).Gives such parser (Each holds) := by
  have found : comment.Gives such parser (IfAny holds) := by
    refine current (after (look (pure ?_)))
    split
    next => exact IfAny.some (kept _)
    next => exact IfAny.none
  exact map found fun _ => IfAny.toList

section Inner

variable {ruleSet atRule : Reading (Option Node)}
variable (ruleSets : ∀ parser, ruleSet.Yields parser (IfAny (IsRuleSet room)))
variable (atRules : ∀ parser, atRule.Yields parser (IfAny (IsAtRule room)))

section Styles

include ruleSets

theorem styleMember_yields {place : String} {other : Reading (List Node)}
    (others : ∀ parser, other.Yields parser (Each (IsStyle room))) :
    (styleMember room ruleSet atRule place other).Yields parser (Each (IsStyle room)) := by
  have nested (parser : Parser) : (nodes ruleSet).Yields parser (Each (IsStyle room)) :=
    map (ruleSets parser) fun _ found node member => (found.toList node member).style
  apply Gives.current
  split
  next => exact after (pure Each.nil)
  next => exact comment_gives fun text => ⟨.comment text, rfl⟩
  next =>
    refine look (ite (fun _ => nested _) fun _ => ?_)
    refine returning declaration_yields fun found is node member => ?_
    obtain ⟨content, among, rfl⟩ := List.mem_map.1 member
    exact ⟨.declaration (is.toList content among), rfl⟩
  next => exact after (after (pure Each.nil))
  next => exact ite (fun _ => nested _) fun _ => others _

theorem ruleSetBody_yields :
    (ruleSetBody room ruleSet atRule).Yields parser (Each (IsStyle room)) := by
  refine blockBody_gives fun _ _ => styleMember_yields ruleSets fun _ => ?_
  exact after (after (pure Each.nil))

theorem containerBody_yields :
    (containerBody room ruleSet atRule).Yields parser (Each (IsStyle room)) := by
  refine blockBody_gives fun _ _ => styleMember_yields ruleSets fun _ => ?_
  exact after (after (pure Each.nil))

theorem container_yields :
    (container room ruleSet atRule).Yields parser (IfAny (IsAtRule (room + 1))) := by
  refine after (after (blockWith_gives fun parser => map (containerBody_yields ruleSets) ?_))
  intro rules each
  refine ⟨.container _ _ ?_ ?_, rfl⟩
  · exact fun rule member => (each rule member).2
  · exact fun rule member => (each rule member).1

end Styles

include ruleSets atRules

theorem ruleMember_yields {place : String} :
    (ruleMember ruleSet atRule place).Yields parser (Each (IsRule room)) := by
  apply Gives.current
  split
  next => exact after (pure Each.nil)
  next => exact comment_gives fun text => ⟨.comment text, rfl⟩
  next => exact map (atRules _) fun _ found node member => (found.toList node member).rule
  next =>
    refine ite (fun _ => ?_) fun _ => after (after (pure Each.nil))
    exact map (ruleSets _) fun _ found node member => (found.toList node member).rule

/-- A block of rules makes a well-formed at-rule. -/
theorem nestedRules_yields {place : String} {rule : List Node → Node}
    (made : ∀ rules, (∀ node ∈ rules, node.isRule = true) →
      (∀ node ∈ rules, node.WellFormed room) → IsAtRule (room + 1) (rule rules)) :
    (rule <$> nestedRules ruleSet atRule place).Yields parser (IsAtRule (room + 1)) := by
  refine map (blockBody_gives fun _ _ => ruleMember_yields ruleSets atRules) fun rules each => ?_
  exact made rules (fun node member => (each node member).2) fun node member => (each node member).1

theorem media_yields : (media ruleSet atRule).Yields parser (IfAny (IsAtRule (room + 1))) := by
  refine bind mediaQuery_yields fun query queried => blockWith_gives fun parser => ?_
  exact nestedRules_yields ruleSets atRules fun _ members inner =>
    ⟨.media queried members inner, rfl⟩

theorem supportsRule_yields :
    (supportsRule room ruleSet atRule).Yields parser (IfAny (IsAtRule (room + 1))) := by
  refine bind (supportsCondition_yields .openBrace) fun condition is => ?_
  refine blockWith_gives fun parser => ?_
  exact nestedRules_yields ruleSets atRules fun _ members inner => ⟨.supports is members inner, rfl⟩

theorem layer_yields : (layer ruleSet atRule).Yields parser (IfAny (IsAtRule (room + 1))) := by
  refine after (look (ite (fun _ => ?_) fun _ => look (ite (fun _ => ?_) fun _ => ?_)))
  · exact after (after (pure (IfAny.some ⟨.layerStatement _, rfl⟩)))
  · have block (names : List Bytes) (parser : Parser) :
        (Node.layerBlock names <$> nestedRules ruleSet atRule "layer block").Yields parser
          (IsAtRule (room + 1)) :=
      nestedRules_yields ruleSets atRules fun _ members inner =>
        ⟨.layerBlock names members inner, rfl⟩
    exact after fun spelled => IfAny.some (block _ _ spelled)
  · exact after (pure IfAny.none)

theorem atRuleBody_yields (name : Bytes) (rule : AtRule) (parser : Parser) :
    (atRuleBody room ruleSet atRule name rule).Yields parser (IfAny (IsAtRule (room + 1))) := by
  cases rule with
  | media => exact media_yields ruleSets atRules
  | keyframes => exact keyframes_yields
  | webkitKeyframes => exact keyframes_yields
  | importRule => exact importRule_yields
  | charset => exact charset_yields
  | fontFace => exact fontFace_yields
  | fontFeatureValues => exact fontFeatureValues_yields
  | colorProfile => exact colorProfile_yields
  | counterStyle => exact counterStyle_yields
  | container => exact container_yields ruleSets
  | supports => exact supportsRule_yields ruleSets atRules
  | layer => exact layer_yields ruleSets atRules
  | page => exact page_yields
  | namespaceRule => exact namespaceRule_yields
  | viewport => exact viewport_yields

end Inner

theorem atRuleWith_gives {body : Bytes → AtRule → Reading (Option Node)}
    {such : Token → Prop} {holds : Node → Prop}
    (inner : ∀ name rule parser, (body name rule).Gives such parser (IfAny holds)) :
    (atRuleWith body).Gives such parser (IfAny holds) := by
  refine look (after (ite (fun _ => current (look ?_)) fun _ => after (after (pure IfAny.none))))
  split
  next => exact after (after (after (pure IfAny.none)))
  next => exact after (after (inner _ _ _))

/-- What the rules at one room yield, wherever they are read. -/
structure RulesYield (room : Nat) : Prop where
  ruleSet : ∀ parser, (ruleSet room).Yields parser (IfAny (IsRuleSet room))
  atRule : ∀ parser, (atRule room).Yields parser (IfAny (IsAtRule room))

theorem rulesYield (room : Nat) : RulesYield room := by
  induction room with
  | zero =>
    constructor
    · intro parser
      have refused (parser : Parser) : refusedBlock.Yields parser (IfAny fun _ => False) :=
        after (after (pure IfAny.none))
      exact ruleSetWith_yields refused fun _ _ _ => False.elim
    · intro parser
      exact after (after (pure IfAny.none))
  | succ room inner =>
    constructor
    · intro parser
      have block (parser : Parser) : (ruleSetBlock room (ruleSet room) (atRule room)).Yields parser
          (IfAny (Each (IsStyle room))) :=
        after (returning (ruleSetBody_yields inner.ruleSet) fun _ => IfAny.some)
      refine ruleSetWith_yields block fun selectors rules shaped each => .ruleSet shaped ?_ ?_
      · exact fun rule member => (each rule member).2
      · exact fun rule member => (each rule member).1
    · intro parser
      exact atRuleWith_gives (atRuleBody_yields inner.ruleSet inner.atRule)

theorem stylesheet_yields (room : Nat) (parser : Parser) :
    (stylesheet room).Yields parser (Stylesheet.WellFormed room) := by
  have inner := rulesYield room
  have members : (collect (fun token => token.kind == .eof) (topMember room)).Yields parser
      (Each (IsRule room)) := by
    refine collect_gives (fun parser _ => current ?_) parser
    split
    next => exact comment_gives fun text => ⟨.comment text, rfl⟩
    next => exact map (inner.atRule _) fun _ found node member => (found.toList node member).rule
    next =>
      refine ite (fun _ => ?_) fun _ => after (after (pure Each.nil))
      exact map (inner.ruleSet _) fun _ found node member => (found.toList node member).rule
  exact returning members fun rules each rule member => (each rule member).symm

end Rules

end Grammar

/-- Whatever the source and the options are, the tree is well-formed, and no deeper than the
nesting limit lets it be. -/
theorem parse_wellFormed (options : Options) (source : Bytes) :
    (Report.ofSource options source).stylesheet.WellFormed Grammar.nestingLimit :=
  Grammar.stylesheet_yields _ _ (Parser.ofTokens_spelled options.settings source)

end CssSyntax

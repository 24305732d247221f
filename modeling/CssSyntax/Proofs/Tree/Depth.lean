import CssSyntax.Proofs.Tree.WellFormed

/-! How deep a tree is. A path goes down from a rule of the stylesheet, part by part. Rule-sets and
at-rules are the levels that the nesting limit is about. Calls share the same limit, but the last
one on a path may be there without any room: one that was refused, or an unquoted url. -/

namespace CssSyntax

/-- What a path through a tree can pass. -/
inductive Part where
  | node (content : Node)
  | stop (content : KeyframeStop)
  | featureBlock (content : FeatureBlock)
  | declaration (content : Declaration)
  | condition (content : SupportsCondition)
  | value (content : Value)

namespace Part

/-- The parts right below a part. -/
def children : Part → List Part
  | node (.comment _) => []
  | node (.ruleSet _ rules) => rules.map node
  | node (.declaration content) => [declaration content]
  | node (.media _ rules) => rules.map node
  | node (.keyframes _ _ stops) => stops.map stop
  | node (.importRule url layer supports _) =>
    value url :: (layer.toList.map value ++ supports.toList.map condition)
  | node (.charset _) => []
  | node (.fontFace declarations) => declarations.map declaration
  | node (.fontFeatureValues _ blocks) => blocks.map featureBlock
  | node (.colorProfile _ declarations) => declarations.map declaration
  | node (.counterStyle _ declarations) => declarations.map declaration
  | node (.container _ _ rules) => rules.map node
  | node (.supports support rules) => condition support :: rules.map node
  | node (.layerStatement _) => []
  | node (.layerBlock _ rules) => rules.map node
  | node (.page _ declarations) => declarations.map declaration
  | node (.namespaceRule _ url) => [value url]
  | node (.viewport _ declarations) => declarations.map declaration
  | stop content => content.declarations.map declaration
  | featureBlock content => content.declarations.map declaration
  | declaration content => content.value.map value
  | condition (.declaration _ values) => values.map value
  | condition (.function _ args) => args.map value
  | condition (.operator _) => []
  | condition (.not inner) => [condition inner]
  | condition (.group conditions) => conditions.map condition
  | value (.basic _) => []
  | value (.string _) => []
  | value (.function _ args) => args.map value

/-- True of rule-sets and at-rules. -/
def isLevel : Part → Bool
  | node content => content.kind == .ruleSet || content.isAtRule
  | _ => false

/-- True of calls, those of a support condition included. -/
def isCall : Part → Bool
  | value (.function _ _) => true
  | condition (.function _ _) => true
  | _ => false

/-- The part is well-formed and needs no more than `room`. -/
def Fits (room : Nat) : Part → Prop
  | node content => content.WellFormed room
  | stop content => content.WellFormed room
  | featureBlock content => ∀ inner ∈ content.declarations, inner.WellFormed room
  | declaration content => content.WellFormed room
  | condition content => content.WellFormed room ∨ content.Inner room
  | value content => content.Fits room

/-- Each part of a path is right below the one before it. -/
def IsPath (path : List Part) : Prop := path.IsChain fun above below => below ∈ above.children

variable {part : Part} {room : Nat}

theorem fits_map {α : Type} {wrap : α → Part} {found : List α}
    (each : ∀ inner ∈ found, (wrap inner).Fits room) :
    ∀ child ∈ found.map wrap, child.Fits room := by
  intro child member
  obtain ⟨inner, among, rfl⟩ := List.mem_map.1 member
  exact each inner among

/-- Below a rule-set or an at-rule there is less room. -/
theorem Fits.below_level (fits : part.Fits room) (level : part.isLevel = true) :
    ∃ inner, room = inner + 1 ∧ ∀ child ∈ part.children, child.Fits inner := by
  cases part with
  | node content =>
    cases fits with
    | comment => exact absurd level Bool.false_ne_true
    | declaration => exact absurd level Bool.false_ne_true
    | ruleSet atoms members inner => exact ⟨_, rfl, fits_map inner⟩
    | media queried members inner => exact ⟨_, rfl, fits_map inner⟩
    | keyframes name webkit stopped => exact ⟨_, rfl, fits_map stopped⟩
    | @importRule room url layer supports media address layered supported queried =>
      refine ⟨_, rfl, List.forall_mem_cons.2 ⟨address, List.forall_mem_append.2 ⟨?_, ?_⟩⟩⟩
      · exact fits_map fun content member => layered content (Option.mem_toList.1 member)
      · exact fits_map fun content member => .inl (supported content (Option.mem_toList.1 member))
    | charset => exact ⟨_, rfl, fun _ member => absurd member List.not_mem_nil⟩
    | fontFace declared => exact ⟨_, rfl, fits_map declared⟩
    | fontFeatureValues families declared => exact ⟨_, rfl, fits_map declared⟩
    | colorProfile named declared => exact ⟨_, rfl, fits_map declared⟩
    | counterStyle name declared => exact ⟨_, rfl, fits_map declared⟩
    | container name query members inner => exact ⟨_, rfl, fits_map inner⟩
    | supports supported members inner =>
      exact ⟨_, rfl, List.forall_mem_cons.2 ⟨.inl supported, fits_map inner⟩⟩
    | layerStatement => exact ⟨_, rfl, fun _ member => absurd member List.not_mem_nil⟩
    | layerBlock names members inner => exact ⟨_, rfl, fits_map inner⟩
    | page selector declared => exact ⟨_, rfl, fits_map declared⟩
    | namespaceRule label address => exact ⟨_, rfl, List.forall_mem_singleton.2 address⟩
    | viewport name declared => exact ⟨_, rfl, fits_map declared⟩
  | _ => exact absurd level Bool.false_ne_true

/-- Neither a level nor a call, nor anything below it. -/
def IsPlain : Part → Prop
  | value (.basic _) => True
  | value (.string _) => True
  | _ => False

/-- A call has less room below it too, unless there is nothing or plain text below it. -/
inductive Calls (room : Nat) (part : Part) : Prop
  | plain (below : ∀ child ∈ part.children, child.IsPlain)
  | deeper {inner : Nat} (shorter : room = inner + 1)
      (below : ∀ child ∈ part.children, child.Fits inner)

theorem calls_of_fits {name : Bytes} {args : List Value}
    (fits : (Value.function name args).Fits room)
    (same : part.children = args.map value) : part.Calls room := by
  cases fits with
  | refused => exact .plain (by simp [same])
  | @url _ _ content plain =>
    refine .plain ?_
    rw [same]
    refine List.forall_mem_singleton.2 ?_
    cases content with
    | basic => trivial
    | string => trivial
    | function callee args => exact absurd rfl (plain callee args)
  | call _ inner =>
    refine .deeper rfl ?_
    rw [same]
    exact fits_map inner

theorem Fits.below_call (fits : part.Fits room) (call : part.isCall = true) : part.Calls room := by
  cases part with
  | value content =>
    cases content with
    | function name args => exact calls_of_fits fits rfl
    | basic => exact absurd call Bool.false_ne_true
    | string => exact absurd call Bool.false_ne_true
  | condition content =>
    cases content with
    | function name args =>
      rcases fits with ⟨_, group, _⟩ | inner
      · exact absurd group SupportsCondition.noConfusion
      · cases inner with
        | function fits => exact calls_of_fits fits rfl
    | _ => exact absurd call Bool.false_ne_true
  | _ => exact absurd call Bool.false_ne_true

/-- What is no level and no call needs all of its room for what is below it. -/
theorem Fits.below_other (fits : part.Fits room) (flat : part.isLevel = false)
    (silent : part.isCall = false) : ∀ child ∈ part.children, child.Fits room := by
  cases part with
  | node content =>
    cases content with
    | comment => exact fun _ member => absurd member List.not_mem_nil
    | declaration content =>
      cases fits with
      | declaration is => exact List.forall_mem_singleton.2 is
    | _ => exact absurd flat.symm Bool.false_ne_true
  | stop content => exact fits_map fits.declarations
  | featureBlock content => exact fits_map fits
  | declaration content => exact fits_map fits.values
  | condition content =>
    rcases fits with ⟨conditions, rfl, inner⟩ | inner
    · exact fits_map fun condition member => .inr (inner condition member)
    · cases inner with
      | declaration key values => exact fits_map values
      | function => exact absurd silent.symm Bool.false_ne_true
      | operator => exact fun _ member => absurd member List.not_mem_nil
      | not negated => exact List.forall_mem_singleton.2 (.inr negated)
      | group several inner => exact fits_map fun condition member => .inr (inner condition member)
  | value content =>
    cases content with
    | function => exact absurd silent.symm Bool.false_ne_true
    | _ => exact fun _ member => absurd member List.not_mem_nil

/-- A path ends at plain text. -/
theorem IsPlain.counts {path : List Part} (chain : IsPath path)
    (plain : ∀ first ∈ path.head?, first.IsPlain) :
    path.countP isLevel = 0 ∧ path.countP (fun part => part.isLevel || part.isCall) = 0 := by
  match path with
  | [] => exact ⟨rfl, rfl⟩
  | [part] =>
    have is := plain part rfl
    unfold IsPlain at is
    split at is
    next => exact ⟨rfl, rfl⟩
    next => exact ⟨rfl, rfl⟩
    next => exact is.elim
  | part :: below :: rest =>
    have is := plain part rfl
    have child := (List.isChain_cons_cons.1 chain).1
    unfold IsPlain at is
    split at is
    next => exact absurd child List.not_mem_nil
    next => exact absurd child List.not_mem_nil
    next => exact is.elim

/-- A path that starts where there is `room` passes no more levels than that, and together with the
calls one more at most. -/
theorem Fits.counts {path : List Part} (chain : IsPath path)
    (fits : ∀ first ∈ path.head?, first.Fits room) :
    path.countP isLevel ≤ room ∧
      path.countP (fun part => part.isLevel || part.isCall) ≤ room + 1 := by
  induction path generalizing room with
  | nil => exact ⟨Nat.zero_le _, Nat.zero_le _⟩
  | cons part rest ih =>
    obtain ⟨next, tail⟩ := List.isChain_cons.1 chain
    have here := fits part rfl
    by_cases level : part.isLevel = true
    · obtain ⟨inner, rfl, below⟩ := here.below_level level
      obtain ⟨levels, calls⟩ := ih tail fun child first => below child (next child first)
      simp only [List.countP_cons, level, Bool.true_or, if_true]
      omega
    · simp only [Bool.not_eq_true] at level
      by_cases call : part.isCall = true
      · simp only [List.countP_cons, level, call, Bool.or_true, Bool.false_eq_true, if_true,
          if_false]
        rcases here.below_call call with below | @⟨inner, rfl, below⟩
        · have ends := IsPlain.counts tail fun child first => below child (next child first)
          omega
        · obtain ⟨levels, calls⟩ := ih tail fun child first => below child (next child first)
          omega
      · simp only [Bool.not_eq_true] at call
        have below := here.below_other level call
        have counts := ih tail fun child first => below child (next child first)
        simpa only [List.countP_cons, level, call, Bool.or_false, Bool.false_eq_true, if_false,
          Nat.add_zero] using counts

end Part

/-- A path starts at a rule. -/
structure Stylesheet.Path (sheet : Stylesheet) (path : List Part) : Prop where
  start : ∀ first ∈ path.head?, first ∈ sheet.rules.map Part.node
  chain : Part.IsPath path

namespace Grammar

open Reading

/-- The rule of a counter that goes up: at the limit a construct is refused, below it the inside is
read with one more on the counter. -/
def nested {α : Type} (depth : Nat) (refused : Reading α) (inside : Nat → Reading α) : Reading α :=
  if nestingLimit ≤ depth then refused else inside (depth + 1)

/-- The constructs that the limit is about, each by what the counter shows when it is met. -/
structure Counter where
  arguments : Nat → Reading (List Value)
  supportsGroup : Nat → Reading (Option SupportsCondition)
  containerCondition : Nat → Reading ContainerCondition
  ruleSet : Nat → Reading (Option Node)
  atRule : Nat → Reading (Option Node)

/-- A group of support conditions, given how the groups in it are read. -/
def supportsInside (room : Nat) (group : Reading (Option SupportsCondition)) :
    Reading (Option SupportsCondition) := do
  advance
  let conditions ← supportsSequence room group .closeParen
  reportIf conditions.isEmpty (.missingAfter "condition" "'('")
  let _ ← expect .closeParen (.missingAfter "')'" "supports condition")
  return if conditions.isEmpty then none else some (.ofSequence conditions)

/-- A group of a container's conditions, given how the groups in it are read. -/
def containerInside (group : Reading ContainerCondition) : Reading ContainerCondition := do
  advance
  skipComments
  let features ← collect endsContainerGroup (containerPart group)
  let _ ← expect .closeParen (.missingAfter "')'" "container condition")
  return ⟨features⟩

namespace Counter

/-- The constructs go by the rule while the counter shows no more than the limit. Nothing is said
of what would be read with more on it. -/
structure Counts (counter : Counter) : Prop where
  arguments : ∀ depth ≤ nestingLimit, counter.arguments depth =
    nested depth refusedArguments fun inner => argumentsWith (valueWith (counter.arguments inner))
  supportsGroup : ∀ depth ≤ nestingLimit, counter.supportsGroup depth =
    nested depth refusedSupportsGroup fun inner =>
      supportsInside (nestingLimit - inner) (counter.supportsGroup inner)
  containerCondition : ∀ depth ≤ nestingLimit, counter.containerCondition depth =
    nested depth refusedContainerGroup fun inner =>
      containerInside (counter.containerCondition inner)
  ruleSet : ∀ depth ≤ nestingLimit, counter.ruleSet depth =
    ruleSetWith (nested depth refusedBlock fun inner =>
      ruleSetBlock (nestingLimit - inner) (counter.ruleSet inner) (counter.atRule inner))
  atRule : ∀ depth ≤ nestingLimit, counter.atRule depth =
    nested depth refusedAtRule fun inner =>
      atRuleWith (atRuleBody (nestingLimit - inner) (counter.ruleSet inner) (counter.atRule inner))

/-- What the grammar reads with the room that the counter leaves. -/
def ofRoom : Counter where
  arguments depth := Grammar.arguments (nestingLimit - depth)
  supportsGroup depth := Grammar.supportsGroup (nestingLimit - depth)
  containerCondition depth := Grammar.containerCondition (nestingLimit - depth)
  ruleSet depth := Grammar.ruleSet (nestingLimit - depth)
  atRule depth := Grammar.atRule (nestingLimit - depth)

theorem nested_room {α : Type} {reading inside : Nat → Reading α} {refused : Reading α}
    (none : reading 0 = refused) (more : ∀ room, reading (room + 1) = inside room) (depth : Nat) :
    reading (nestingLimit - depth) =
      nested depth refused fun inner => inside (nestingLimit - inner) := by
  unfold nested
  split
  next full => rw [Nat.sub_eq_zero_of_le full, none]
  next free =>
    have left : nestingLimit - depth = nestingLimit - (depth + 1) + 1 := by omega
    rw [left, more]

/-- The block of a rule-set with so much room left. -/
def blockWithin : Nat → Reading (Option (List Node))
  | 0 => refusedBlock
  | room + 1 => ruleSetBlock room (Grammar.ruleSet room) (Grammar.atRule room)

theorem ruleSet_eq (room : Nat) : Grammar.ruleSet room = ruleSetWith (blockWithin room) := by
  cases room <;> rfl

theorem ofRoom_counts : ofRoom.Counts where
  arguments depth _ := nested_room rfl (fun _ => rfl) depth
  supportsGroup depth _ := nested_room rfl (fun _ => rfl) depth
  containerCondition depth _ := nested_room rfl (fun _ => rfl) depth
  ruleSet depth _ := (ruleSet_eq _).trans
    (congrArg ruleSetWith (nested_room (rfl : blockWithin 0 = _) (fun _ => rfl) depth))
  atRule depth _ := nested_room rfl (fun _ => rfl) depth

/-- The two families read alike with the counter at `depth`. -/
structure AgreesAt (left right : Counter) (depth : Nat) : Prop where
  arguments : left.arguments depth = right.arguments depth
  supportsGroup : left.supportsGroup depth = right.supportsGroup depth
  containerCondition : left.containerCondition depth = right.containerCondition depth
  ruleSet : left.ruleSet depth = right.ruleSet depth
  atRule : left.atRule depth = right.atRule depth

/-- The rule alone says what is read, from the limit down: with more on the counter than the limit
nothing is ever read. -/
theorem Counts.agrees {left right : Counter} (first : left.Counts) (second : right.Counts)
    {depth : Nat} (within : depth ≤ nestingLimit) : left.AgreesAt right depth := by
  have same {α : Type} {refused : Reading α} {inside other : Nat → Reading α}
      (deeper : depth < nestingLimit → inside (depth + 1) = other (depth + 1)) :
      nested depth refused inside = nested depth refused other := by
    unfold nested
    split
    next => rfl
    next free => exact deeper (Nat.lt_of_not_le free)
  have inner (free : depth < nestingLimit) : left.AgreesAt right (depth + 1) :=
    first.agrees second free
  constructor
  · rw [first.arguments depth within, second.arguments depth within]
    exact same fun free => by rw [(inner free).arguments]
  · rw [first.supportsGroup depth within, second.supportsGroup depth within]
    exact same fun free => by rw [(inner free).supportsGroup]
  · rw [first.containerCondition depth within, second.containerCondition depth within]
    exact same fun free => by rw [(inner free).containerCondition]
  · rw [first.ruleSet depth within, second.ruleSet depth within]
    exact congrArg _ (same fun free => by rw [(inner free).ruleSet, (inner free).atRule])
  · rw [first.atRule depth within, second.atRule depth within]
    exact same fun free => by rw [(inner free).ruleSet, (inner free).atRule]
termination_by nestingLimit - depth

/-- The rules up to the end of the input, with nothing on the counter before each of them. -/
def stylesheet (counter : Counter) : Reading Stylesheet := do
  let rules ← collect (fun token => token.kind == .eof) do
    let token ← current
    match token.kind with
    | .comment => nodes comment
    | .atSign => nodes (counter.atRule 0)
    | kind =>
      if startsRuleSet kind then nodes (counter.ruleSet 0)
      else
        report .misplacedAtTop
        advance
        return []
  return ⟨rules⟩

def report (counter : Counter) (options : Options) (source : Bytes) : Report :=
  let found := counter.stylesheet (Parser.ofTokens options.settings (tokenize source))
  ⟨found.1, found.2.errors⟩

theorem Counts.stylesheet_eq {counter : Counter} (counts : counter.Counts) :
    counter.stylesheet = Grammar.stylesheet nestingLimit := by
  have same := counts.agrees ofRoom_counts (Nat.zero_le nestingLimit)
  unfold stylesheet
  rw [same.ruleSet, same.atRule]
  rfl

end Counter

end Grammar

end CssSyntax

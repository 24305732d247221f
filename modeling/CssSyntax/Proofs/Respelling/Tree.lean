import CssSyntax.Proofs.Respelling.Letter
import CssSyntax.Syntax.Node

/-! Trees of a source that was written again: every text in them is respelled, and the comments may
be gone from all blocks. -/

namespace CssSyntax

section Texts

def StringLiteral.respell (byte : UInt8 → UInt8) (literal : StringLiteral) : StringLiteral :=
  { literal with content := literal.content.map byte }

mutual

def Value.respell (byte : UInt8 → UInt8) : Value → Value
  | .basic bytes => .basic (bytes.map byte)
  | .string literal => .string (literal.respell byte)
  | .function name args => .function (name.map byte) (Value.respellAll byte args)

def Value.respellAll (byte : UInt8 → UInt8) : List Value → List Value
  | [] => []
  | value :: rest => Value.respell byte value :: Value.respellAll byte rest

end

def Declaration.respell (byte : UInt8 → UInt8) (declaration : Declaration) : Declaration :=
  ⟨declaration.key.map byte, declaration.value.map (Value.respell byte), declaration.important⟩

def Feature.respell (byte : UInt8 → UInt8) (feature : Feature) : Feature :=
  ⟨feature.name.map byte, feature.value.map (List.map byte)⟩

def MediaExpression.respell (byte : UInt8 → UInt8) (expression : MediaExpression) :
    MediaExpression :=
  { expression with
    mediaType := expression.mediaType.map (List.map byte)
    features := expression.features.map (Feature.respell byte) }

def MediaQuery.respell (byte : UInt8 → UInt8) (query : MediaQuery) : MediaQuery :=
  ⟨query.expressions.map (MediaExpression.respell byte)⟩

def ContainerCondition.respell (byte : UInt8 → UInt8) (condition : ContainerCondition) :
    ContainerCondition :=
  ⟨condition.features.map (Feature.respell byte)⟩

mutual

def SupportsCondition.respell (byte : UInt8 → UInt8) : SupportsCondition → SupportsCondition
  | .declaration key value => .declaration (key.map byte) (value.map (Value.respell byte))
  | .function name args => .function (name.map byte) (args.map (Value.respell byte))
  | .operator word => .operator (word.map byte)
  | .not inner => .not (SupportsCondition.respell byte inner)
  | .group conditions => .group (SupportsCondition.respellAll byte conditions)

def SupportsCondition.respellAll (byte : UInt8 → UInt8) :
    List SupportsCondition → List SupportsCondition
  | [] => []
  | condition :: rest =>
    SupportsCondition.respell byte condition :: SupportsCondition.respellAll byte rest

end

def SelectorAtom.respell (byte : UInt8 → UInt8) (atom : SelectorAtom) : SelectorAtom :=
  ⟨atom.kind, atom.value.map byte⟩

def KeyframeStop.respell (byte : UInt8 → UInt8) (stop : KeyframeStop) : KeyframeStop :=
  ⟨stop.stops.map (List.map byte), stop.declarations.map (Declaration.respell byte)⟩

def FeatureBlock.respell (byte : UInt8 → UInt8) (block : FeatureBlock) : FeatureBlock :=
  ⟨block.name.map byte, block.declarations.map (Declaration.respell byte)⟩

def ProfileName.respell (byte : UInt8 → UInt8) : ProfileName → ProfileName
  | .deviceCmyk => .deviceCmyk
  | .dashed name => .dashed (name.map byte)

mutual

def Node.respell (byte : UInt8 → UInt8) : Node → Node
  | .comment text => .comment (text.map byte)
  | .ruleSet selectors rules =>
    .ruleSet (selectors.map (SelectorAtom.respell byte)) (Node.respellAll byte rules)
  | .declaration content => .declaration (content.respell byte)
  | .media query rules => .media (query.respell byte) (Node.respellAll byte rules)
  | .keyframes name webkit stops =>
    .keyframes (name.map byte) webkit (stops.map (KeyframeStop.respell byte))
  | .importRule url layer support query =>
    .importRule (url.respell byte) (layer.map (Value.respell byte))
      (support.map (SupportsCondition.respell byte)) (query.map (MediaQuery.respell byte))
  | .charset name => .charset (name.map byte)
  | .fontFace declarations => .fontFace (declarations.map (Declaration.respell byte))
  | .fontFeatureValues families blocks =>
    .fontFeatureValues (families.map (List.map byte)) (blocks.map (FeatureBlock.respell byte))
  | .colorProfile profile declarations =>
    .colorProfile (profile.respell byte) (declarations.map (Declaration.respell byte))
  | .counterStyle name declarations =>
    .counterStyle (name.map byte) (declarations.map (Declaration.respell byte))
  | .container name query rules =>
    .container (name.map (List.map byte)) (query.map (ContainerCondition.respell byte))
      (Node.respellAll byte rules)
  | .supports condition rules =>
    .supports (condition.respell byte) (Node.respellAll byte rules)
  | .layerStatement names => .layerStatement (names.map (List.map byte))
  | .layerBlock names rules =>
    .layerBlock (names.map (List.map byte)) (Node.respellAll byte rules)
  | .page selector declarations =>
    .page (selector.map (List.map byte)) (declarations.map (Declaration.respell byte))
  | .namespaceRule label url =>
    .namespaceRule (label.map (List.map byte)) (url.respell byte)
  | .viewport name declarations =>
    .viewport (name.map byte) (declarations.map (Declaration.respell byte))

def Node.respellAll (byte : UInt8 → UInt8) : List Node → List Node
  | [] => []
  | node :: rest => Node.respell byte node :: Node.respellAll byte rest

end

def Stylesheet.respell (byte : UInt8 → UInt8) (sheet : Stylesheet) : Stylesheet :=
  ⟨Node.respellAll byte sheet.rules⟩

/-- The tree with all its texts in lower case. -/
def Stylesheet.lower (sheet : Stylesheet) : Stylesheet := sheet.respell Byte.lower

end Texts

section Comments

mutual

/-- The node with no comments in its blocks, at any depth. -/
def Node.withoutComments : Node → Node
  | .ruleSet selectors rules => .ruleSet selectors (Node.dropComments rules)
  | .media query rules => .media query (Node.dropComments rules)
  | .container name query rules => .container name query (Node.dropComments rules)
  | .supports condition rules => .supports condition (Node.dropComments rules)
  | .layerBlock names rules => .layerBlock names (Node.dropComments rules)
  | node => node

def Node.dropComments : List Node → List Node
  | [] => []
  | node :: rest =>
    if node.kind = .comment then Node.dropComments rest
    else Node.withoutComments node :: Node.dropComments rest

end

/-- The tree with no comments, at any depth. -/
def Stylesheet.withoutComments (sheet : Stylesheet) : Stylesheet :=
  ⟨Node.dropComments sheet.rules⟩

end Comments

theorem Value.respellAll_eq (byte : UInt8 → UInt8) (values : List Value) :
    Value.respellAll byte values = values.map (Value.respell byte) := by
  induction values with
  | nil => rfl
  | cons value rest ih => rw [Value.respellAll, ih, List.map_cons]

theorem SupportsCondition.respellAll_eq (byte : UInt8 → UInt8)
    (conditions : List SupportsCondition) :
    SupportsCondition.respellAll byte conditions =
      conditions.map (SupportsCondition.respell byte) := by
  induction conditions with
  | nil => rfl
  | cons condition rest ih => rw [SupportsCondition.respellAll, ih, List.map_cons]

section Unchanged

/-! Where every byte stays, every tree stays. -/

theorem StringLiteral.respell_id (literal : StringLiteral) : literal.respell id = literal := by
  simp [StringLiteral.respell]

mutual

theorem Value.respell_id (value : Value) : value.respell id = value := by
  match value with
  | .basic bytes => simp [Value.respell]
  | .string literal => simp [Value.respell, StringLiteral.respell_id]
  | .function name args => simp [Value.respell, Value.respellAll_id args]

theorem Value.respellAll_id (values : List Value) : Value.respellAll id values = values := by
  match values with
  | [] => rfl
  | value :: rest => rw [Value.respellAll, Value.respell_id value, Value.respellAll_id rest]

end

theorem Value.map_respell_id (values : List Value) : values.map (Value.respell id) = values := by
  rw [← Value.respellAll_eq, Value.respellAll_id]

mutual

theorem SupportsCondition.respell_id (condition : SupportsCondition) :
    condition.respell id = condition := by
  match condition with
  | .declaration key value => simp [SupportsCondition.respell, Value.map_respell_id]
  | .function name args => simp [SupportsCondition.respell, Value.map_respell_id]
  | .operator word => simp [SupportsCondition.respell]
  | .not inner => simp [SupportsCondition.respell, SupportsCondition.respell_id inner]
  | .group conditions =>
    simp [SupportsCondition.respell, SupportsCondition.respellAll_id conditions]

theorem SupportsCondition.respellAll_id (conditions : List SupportsCondition) :
    SupportsCondition.respellAll id conditions = conditions := by
  match conditions with
  | [] => rfl
  | condition :: rest =>
    rw [SupportsCondition.respellAll, SupportsCondition.respell_id condition,
      SupportsCondition.respellAll_id rest]

end

theorem Declaration.respell_id : Declaration.respell id = id := by
  funext declaration
  simp [Declaration.respell, Value.map_respell_id]

theorem Feature.respell_id : Feature.respell id = id := by
  funext feature
  simp [Feature.respell]

theorem MediaQuery.respell_id : MediaQuery.respell id = id := by
  have expression : MediaExpression.respell id = id := by
    funext expression
    simp [MediaExpression.respell, Feature.respell_id]
  funext query
  simp [MediaQuery.respell, expression]

theorem ContainerCondition.respell_id : ContainerCondition.respell id = id := by
  funext condition
  simp [ContainerCondition.respell, Feature.respell_id]

theorem SelectorAtom.respell_id : SelectorAtom.respell id = id := by
  funext atom
  simp [SelectorAtom.respell]

theorem KeyframeStop.respell_id : KeyframeStop.respell id = id := by
  funext stop
  simp [KeyframeStop.respell, Declaration.respell_id]

theorem FeatureBlock.respell_id : FeatureBlock.respell id = id := by
  funext block
  simp [FeatureBlock.respell, Declaration.respell_id]

theorem ProfileName.respell_id (profile : ProfileName) : profile.respell id = profile := by
  cases profile <;> simp [ProfileName.respell]

mutual

theorem Node.respell_id (node : Node) : node.respell id = node := by
  have value : Value.respell id = id := funext Value.respell_id
  have support : SupportsCondition.respell id = id := funext SupportsCondition.respell_id
  match node with
  | .comment text => simp [Node.respell]
  | .ruleSet selectors rules =>
    simp [Node.respell, SelectorAtom.respell_id, Node.respellAll_id rules]
  | .declaration content => simp [Node.respell, Declaration.respell_id]
  | .media query rules => simp [Node.respell, MediaQuery.respell_id, Node.respellAll_id rules]
  | .keyframes name webkit stops => simp [Node.respell, KeyframeStop.respell_id]
  | .importRule url layer condition query =>
    simp [Node.respell, value, support, MediaQuery.respell_id]
  | .charset name => simp [Node.respell]
  | .fontFace declarations => simp [Node.respell, Declaration.respell_id]
  | .fontFeatureValues families blocks => simp [Node.respell, FeatureBlock.respell_id]
  | .colorProfile profile declarations =>
    simp [Node.respell, ProfileName.respell_id, Declaration.respell_id]
  | .counterStyle name declarations => simp [Node.respell, Declaration.respell_id]
  | .container name query rules =>
    simp [Node.respell, ContainerCondition.respell_id, Node.respellAll_id rules]
  | .supports condition rules => simp [Node.respell, support, Node.respellAll_id rules]
  | .layerStatement names => simp [Node.respell]
  | .layerBlock names rules => simp [Node.respell, Node.respellAll_id rules]
  | .page selector declarations => simp [Node.respell, Declaration.respell_id]
  | .namespaceRule label url => simp [Node.respell, value]
  | .viewport name declarations => simp [Node.respell, Declaration.respell_id]

theorem Node.respellAll_id (rules : List Node) : Node.respellAll id rules = rules := by
  match rules with
  | [] => rfl
  | node :: rest => rw [Node.respellAll, Node.respell_id node, Node.respellAll_id rest]

end

end Unchanged

namespace Respelling

variable (respelling : Respelling)

/-- What becomes of a node in the second tree. Only a comment can be gone. -/
def node? (node : Node) : Option Node :=
  if respelling.keepsComments then some (node.respell respelling.byte)
  else if node.kind = .comment then none
  else some (node.respell respelling.byte).withoutComments

/-- What becomes of the nodes of a block. -/
def nodes (rules : List Node) : List Node := rules.filterMap respelling.node?

/-- What becomes of a node that may not be there. -/
def rule? (found : Option Node) : Option Node := found.bind respelling.node?

theorem nodes_append (left right : List Node) :
    respelling.nodes (left ++ right) = respelling.nodes left ++ respelling.nodes right :=
  List.filterMap_append

theorem nodes_toList (found : Option Node) :
    respelling.nodes found.toList = (respelling.rule? found).toList := by
  cases found with
  | none => rfl
  | some node =>
    change List.filterMap respelling.node? [node] = (respelling.node? node).toList
    cases respelled : respelling.node? node with
    | none => simp [respelled]
    | some other => simp [respelled]

theorem kind_respell (byte : UInt8 → UInt8) (node : Node) :
    (node.respell byte).kind = node.kind := by
  cases node <;> rfl

/-- Without comments a block is left with the respelled nodes that are none. -/
theorem dropComments_respellAll (dropped : respelling.keepsComments = false) (rules : List Node) :
    Node.dropComments (Node.respellAll respelling.byte rules) = respelling.nodes rules := by
  induction rules with
  | nil => rfl
  | cons node rest ih =>
    unfold Respelling.nodes at ih ⊢
    rw [Node.respellAll, Node.dropComments, kind_respell, ih, List.filterMap_cons, node?,
      if_neg (Bool.eq_false_iff.1 dropped)]
    by_cases comment : node.kind = .comment
    · rw [if_pos comment, if_pos comment]
    · rw [if_neg comment, if_neg comment]

theorem respellAll_eq_nodes (kept : respelling.keepsComments = true) (rules : List Node) :
    Node.respellAll respelling.byte rules = respelling.nodes rules := by
  induction rules with
  | nil => rfl
  | cons node rest ih =>
    unfold Respelling.nodes at ih ⊢
    rw [Node.respellAll, ih, List.filterMap_cons, node?, if_pos kept]

/-- Both parses have to keep a comment. -/
theorem rule?_comment (text : Bytes) (kept : Bool) :
    respelling.rule? (if kept then some (.comment text) else none) =
      if respelling.keepsComments && kept then some (.comment (text.map respelling.byte))
      else none := by
  cases kept with
  | false =>
    rw [Bool.and_false]
    rfl
  | true =>
    rw [Bool.and_true, if_pos rfl]
    rfl

/-- A node that holds no other nodes is respelled. -/
theorem node?_of_leaf {node : Node} (other : (node.kind == .comment) = false)
    (leaf : (node.respell respelling.byte).withoutComments = node.respell respelling.byte) :
    respelling.node? node = some (node.respell respelling.byte) := by
  unfold node?
  rw [leaf, if_neg (ne_of_beq_false other), ite_self]

/-- A node that holds other nodes is respelled, and its block is what becomes of the block. -/
theorem node?_of_block {make respelled : List Node → Node} (rules : List Node)
    (other : ((make rules).kind == .comment) = false)
    (each : (make rules).respell respelling.byte =
      respelled (Node.respellAll respelling.byte rules))
    (bare : ∀ rules, (respelled rules).withoutComments = respelled (Node.dropComments rules)) :
    respelling.node? (make rules) = some (respelled (respelling.nodes rules)) := by
  unfold node?
  rw [each, bare, if_neg (ne_of_beq_false other)]
  cases kept : respelling.keepsComments with
  | false => rw [if_neg Bool.false_ne_true, dropComments_respellAll respelling kept]
  | true => rw [if_pos rfl, respellAll_eq_nodes respelling kept]

/-- What was made of parts is made of the respelled parts. -/
theorem rule?_map {α : Type} {make made : α → Node} {change : α → α}
    (step : ∀ part, respelling.node? (make part) = some (made (change part)))
    (found : Option α) :
    respelling.rule? (found.map make) = (found.map change).map made := by
  cases found with
  | none => rfl
  | some part => exact step part

end Respelling

end CssSyntax

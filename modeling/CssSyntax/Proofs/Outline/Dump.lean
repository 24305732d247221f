import CssSyntax.Proofs.Outline.Nested
import Mathlib.Data.List.Forall2

/-! A tree is dumped by moving a writer: each kind of node takes the level in and out again and sets
the labels of its parts. Whatever the writer has before it, a dump writes the rows that the value
has on its own, nested at the level of the writer, which is left at that level without a label. -/

namespace CssSyntax

namespace Writer

section Methods

variable (writer : Writer) (label : String)

def absent : Writer := (writer.named label).line "none"

def bytes (value : Bytes) : Writer := (writer.named label).line (quoted value)

def optionalBytes (value : Option Bytes) : Writer :=
  match value with
  | some value => writer.bytes label value
  | none => writer.absent label

def flag (value : Bool) : Writer := (writer.named label).line (if value then "true" else "false")

/-- A part that dumps itself behind its label. -/
def node (dump : Writer → Writer) : Writer := dump (writer.named label)

def optionalNode (dump : Option (Writer → Writer)) : Writer :=
  match dump with
  | some dump => writer.node label dump
  | none => writer.absent label

def dumpAll (dumps : List (Writer → Writer)) : Writer :=
  dumps.foldl (fun writer dump => dump writer) writer

def list (items : List (Writer → Writer)) : Writer :=
  match items with
  | [] => (writer.named label).line "[]"
  | items => (((writer.named label).line "[").indent.dumpAll items).dedent.line "]"

def openNode (kind : NodeKind) : Writer := writer.openRecord kind.name

end Methods

end Writer

/-- The two fields in which a color profile keeps what it is for. -/
structure ProfileFields where
  isDevice : Bool
  name : Option Bytes

def ProfileName.shown : ProfileName → ProfileFields
  | deviceCmyk => ⟨true, none⟩
  | dashed name => ⟨false, some name⟩

section Dumps

def Bytes.dump (value : Bytes) (writer : Writer) : Writer := writer.line (quoted value)

mutual

def Value.dump : Value → Writer → Writer
  | .basic bytes => fun writer => writer.line ("BasicValue \x7b Value: " ++ quoted bytes ++ " \x7d")
  | .string literal => fun writer =>
    writer.line ("StringValue \x7b SingleQuote: "
      ++ (if literal.isSingleQuoted then "true" else "false")
      ++ ", Value: " ++ quoted literal.content ++ " \x7d")
  | .function name args => fun writer =>
    (((writer.openRecord "FunctionValue").bytes "Name" name).list "Args"
      (Value.dumps args)).closeRecord

def Value.dumps : List Value → List (Writer → Writer)
  | [] => []
  | value :: rest => Value.dump value :: Value.dumps rest

end

def Declaration.dump (declaration : Declaration) (writer : Writer) : Writer :=
  ((((writer.openNode .declaration).bytes "Key" declaration.key).list "Value"
    (Value.dumps declaration.value)).flag "Important" declaration.important).closeRecord

def SelectorAtom.dump (atom : SelectorAtom) (writer : Writer) : Writer :=
  writer.line ("SelectorValue \x7b Kind: " ++ atom.kind.name ++ ", Value: " ++ quoted atom.value
    ++ " \x7d")

def Feature.dump (feature : Feature) (writer : Writer) : Writer :=
  writer.line ("MediaFeature \x7b Name: " ++ quoted feature.name
    ++ ", Value: " ++ (feature.value.map quoted).getD "none" ++ " \x7d")

def MediaExpression.dump (expression : MediaExpression) (writer : Writer) : Writer :=
  (((((writer.openRecord "MediaQueryExpression").flag "Not" expression.isNot).flag "Only"
    expression.isOnly).optionalBytes "MediaType" expression.mediaType).list "Features"
      (expression.features.map Feature.dump)).closeRecord

def MediaQuery.dump (query : MediaQuery) (writer : Writer) : Writer :=
  ((writer.openRecord "MediaQuery").list "Expressions"
    (query.expressions.map MediaExpression.dump)).closeRecord

def ContainerCondition.dump (condition : ContainerCondition) (writer : Writer) : Writer :=
  ((writer.openRecord "ContainerCondition").list "Features"
    (condition.features.map Feature.dump)).closeRecord

mutual

def SupportsCondition.dump : SupportsCondition → Writer → Writer
  | .declaration key value => fun writer =>
    (((writer.openRecord "SupportsDeclaration").bytes "Key" key).list "Value"
      (Value.dumps value)).closeRecord
  | .function name args => fun writer =>
    (((writer.openRecord "SupportsFunction").bytes "Name" name).list "Args"
      (Value.dumps args)).closeRecord
  | .operator word => fun writer =>
    writer.line ("SupportsOperator \x7b Op: " ++ quoted word ++ " \x7d")
  | .not inner => fun writer =>
    ((writer.openRecord "SupportsNot").node "Inner" (SupportsCondition.dump inner)).closeRecord
  | .group conditions => fun writer =>
    ((writer.openRecord "SupportsGroup").list "Conditions"
      (SupportsCondition.dumps conditions)).closeRecord

def SupportsCondition.dumps : List SupportsCondition → List (Writer → Writer)
  | [] => []
  | condition :: rest => SupportsCondition.dump condition :: SupportsCondition.dumps rest

end

def KeyframeStop.dump (stop : KeyframeStop) (writer : Writer) : Writer :=
  (((writer.openNode .keyframeStop).list "Stops" (stop.stops.map Bytes.dump)).list "Rules"
    (stop.declarations.map Declaration.dump)).closeRecord

def FeatureBlock.dump (block : FeatureBlock) (writer : Writer) : Writer :=
  (((writer.openNode .featureBlock).bytes "Name" block.name).list "Declarations"
    (block.declarations.map Declaration.dump)).closeRecord

mutual

/-- `shown` gives the fields of each profile. It is any function, as a tree that no source has may
hold a profile with both fields filled or with neither. -/
def Node.dump (shown : ProfileName → ProfileFields) : Node → Writer → Writer
  | .comment text => fun writer => writer.line ("Comment \x7b Text: " ++ quoted text ++ " \x7d")
  | .ruleSet selectors rules => fun writer =>
    (((writer.openNode .ruleSet).list "Selectors" (selectors.map SelectorAtom.dump)).list "Rules"
      (Node.dumps shown rules)).closeRecord
  | .declaration content => content.dump
  | .media query rules => fun writer =>
    (((writer.openNode .media).node "Query" query.dump).list "Rules"
      (Node.dumps shown rules)).closeRecord
  | .keyframes name webkit stops => fun writer =>
    ((((writer.openNode .keyframes).bytes "Name" name).flag "WebkitPrefix" webkit).list "Stops"
      (stops.map KeyframeStop.dump)).closeRecord
  | .importRule url layer support query => fun writer =>
    (((((writer.openNode .importRule).node "Url" url.dump).optionalNode "Layer"
      (layer.map Value.dump)).optionalNode "Supports"
        (support.map SupportsCondition.dump)).optionalNode "Media"
          (query.map MediaQuery.dump)).closeRecord
  | .charset name => fun writer => ((writer.openNode .charset).bytes "Charset" name).closeRecord
  | .fontFace declarations => fun writer =>
    ((writer.openNode .fontFace).list "Declarations"
      (declarations.map Declaration.dump)).closeRecord
  | .fontFeatureValues families blocks => fun writer =>
    (((writer.openNode .fontFeatureValues).list "FontFamilies" (families.map Bytes.dump)).list
      "Blocks" (blocks.map FeatureBlock.dump)).closeRecord
  | .colorProfile profile declarations => fun writer =>
    ((((writer.openNode .colorProfile).flag "DeviceCmyk" (shown profile).isDevice).optionalBytes
      "Name" (shown profile).name).list "Declarations"
        (declarations.map Declaration.dump)).closeRecord
  | .counterStyle name declarations => fun writer =>
    (((writer.openNode .counterStyle).bytes "Name" name).list "Declarations"
      (declarations.map Declaration.dump)).closeRecord
  | .container name query rules => fun writer =>
    ((((writer.openNode .container).optionalBytes "Name" name).list "Query"
      (query.map ContainerCondition.dump)).list "Rules" (Node.dumps shown rules)).closeRecord
  | .supports condition rules => fun writer =>
    (((writer.openNode .supports).node "Condition" condition.dump).list "Rules"
      (Node.dumps shown rules)).closeRecord
  | .layerStatement names => fun writer =>
    (((writer.openNode .layer).list "Names" (names.map Bytes.dump)).absent "Rules").closeRecord
  | .layerBlock names rules => fun writer =>
    (((writer.openNode .layer).list "Names" (names.map Bytes.dump)).list "Rules"
      (Node.dumps shown rules)).closeRecord
  | .page selector declarations => fun writer =>
    (((writer.openNode .page).optionalBytes "Selector" selector).list "Declarations"
      (declarations.map Declaration.dump)).closeRecord
  | .namespaceRule label url => fun writer =>
    (((writer.openNode .namespaceRule).optionalBytes "Prefix" label).node "Url"
      url.dump).closeRecord
  | .viewport name declarations => fun writer =>
    (((writer.openNode .viewport).bytes "Name" name).list "Declarations"
      (declarations.map Declaration.dump)).closeRecord

def Node.dumps (shown : ProfileName → ProfileFields) : List Node → List (Writer → Writer)
  | [] => []
  | node :: rest => Node.dump shown node :: Node.dumps shown rest

end

def Stylesheet.dump (shown : ProfileName → ProfileFields) (sheet : Stylesheet) (writer : Writer) :
    Writer :=
  ((writer.openNode .stylesheet).list "Rules" (Node.dumps shown sheet.rules)).closeRecord

end Dumps

/-- A value of a tree: the tree, a node of it or a part of a node. -/
inductive TreeValue where
  | bytes (value : Bytes)
  | value (value : Value)
  | declaration (declaration : Declaration)
  | selectorAtom (atom : SelectorAtom)
  | feature (feature : Feature)
  | mediaExpression (expression : MediaExpression)
  | mediaQuery (query : MediaQuery)
  | containerCondition (condition : ContainerCondition)
  | supportsCondition (condition : SupportsCondition)
  | keyframeStop (stop : KeyframeStop)
  | featureBlock (block : FeatureBlock)
  | node (node : Node)
  | stylesheet (sheet : Stylesheet)

namespace TreeValue

def outline : TreeValue → Outline
  | bytes content => .bytes content
  | value content => content.outline
  | declaration content => content.outline
  | selectorAtom atom => atom.outline
  | feature content => content.outline
  | mediaExpression expression => expression.outline
  | mediaQuery query => query.outline
  | containerCondition condition => condition.outline
  | supportsCondition condition => condition.outline
  | keyframeStop stop => stop.outline
  | featureBlock block => block.outline
  | node content => content.outline
  | stylesheet sheet => sheet.outline

def dump (shown : ProfileName → ProfileFields) : TreeValue → Writer → Writer
  | bytes content => content.dump
  | value content => content.dump
  | declaration content => content.dump
  | selectorAtom atom => atom.dump
  | feature content => content.dump
  | mediaExpression expression => expression.dump
  | mediaQuery query => query.dump
  | containerCondition condition => condition.dump
  | supportsCondition condition => condition.dump
  | keyframeStop stop => stop.dump
  | featureBlock block => block.dump
  | node content => content.dump shown
  | stylesheet sheet => sheet.dump shown

/-- The dump of the value on its own. -/
def dumpText (shown : ProfileName → ProfileFields) (value : TreeValue) : String :=
  (value.dump shown .empty).finish

end TreeValue

namespace Writer

/-- `dump` writes `outline`, whatever the writer has before it. -/
def Draws (dump : Writer → Writer) (outline : Outline) : Prop :=
  ∀ writer : Writer, dump writer = writer.write outline

section Methods

variable {dump : Writer → Writer} {outline : Outline} {dumps : List (Writer → Writer)}
variable {outlines : List Outline}

theorem absent_eq (writer : Writer) (label : String) :
    writer.absent label = writer.write (.labelled label .none) := rfl

theorem bytes_eq (writer : Writer) (label : String) (value : Bytes) :
    writer.bytes label value = writer.write (.labelled label (.bytes value)) := rfl

theorem optionalBytes_eq (writer : Writer) (label : String) (value : Option Bytes) :
    writer.optionalBytes label value =
      writer.write (.labelled label (.optionalBytes value)) := by
  cases value with
  | none => rfl
  | some value => rfl

theorem flag_eq (writer : Writer) (label : String) (value : Bool) :
    writer.flag label value = writer.write (.labelled label (.flag value)) := rfl

theorem node_eq (draws : Draws dump outline) (writer : Writer) (label : String) :
    writer.node label dump = writer.write (.labelled label outline) := draws _

theorem optionalNode_eq {α : Type} {dump : α → Writer → Writer} {outline : α → Outline}
    (draws : ∀ value, Draws (dump value) (outline value)) (writer : Writer) (label : String)
    (value : Option α) :
    writer.optionalNode label (value.map dump) =
      writer.write (.labelled label (.optional (value.map outline))) := by
  cases value with
  | none => rfl
  | some value => exact node_eq (draws value) writer label

theorem writeAll_append (writer : Writer) (front rest : List Outline) :
    writer.writeAll (front ++ rest) = (writer.writeAll front).writeAll rest := by
  induction front generalizing writer with
  | nil => rfl
  | cons first others ih => exact ih (writer.write first)

/-- The writer goes from item to item. -/
theorem dumpAll_eq (draw : List.Forall₂ Draws dumps outlines) (writer : Writer) :
    writer.dumpAll dumps = writer.writeAll outlines := by
  induction draw generalizing writer with
  | nil => rfl
  | cons first _ ih =>
    rw [writeAll, ← first writer]
    exact ih _

theorem list_eq (draw : List.Forall₂ Draws dumps outlines) (writer : Writer) (label : String) :
    writer.list label dumps = writer.write (.labelled label (.list outlines)) := by
  have items := dumpAll_eq draw ((writer.named label).line "[").indent
  cases draw with
  | nil => rfl
  | cons first rest => exact congrArg (fun inner => inner.dedent.line "]") items

theorem forall₂_draws_map {α : Type} {dump : α → Writer → Writer} {outline : α → Outline}
    (draws : ∀ value, Draws (dump value) (outline value)) (values : List α) :
    List.Forall₂ Draws (values.map dump) (values.map outline) := by
  induction values with
  | nil => exact .nil
  | cons first rest ih => exact .cons (draws first) ih

theorem list_map_eq {α : Type} {dump : α → Writer → Writer} {outline : α → Outline}
    (draws : ∀ value, Draws (dump value) (outline value)) (writer : Writer) (label : String)
    (values : List α) :
    writer.list label (values.map dump) =
      writer.write (.labelled label (.list (values.map outline))) :=
  list_eq (forall₂_draws_map draws values) writer label

end Methods

end Writer

open Writer

section Parts

theorem Bytes.draws (value : Bytes) : Draws (Bytes.dump value) (.bytes value) := fun _ => rfl

mutual

theorem Value.draws : (value : Value) → Draws value.dump value.outline
  | .basic _ => fun _ => rfl
  | .string _ => fun _ => rfl
  | .function name args => fun writer => by
    simp only [Value.dump, bytes_eq, list_eq (allDraw args)]
    rfl

theorem Value.allDraw :
    (values : List Value) → List.Forall₂ Draws (Value.dumps values) (Value.outlines values)
  | [] => .nil
  | first :: rest => .cons first.draws (allDraw rest)

end

theorem Declaration.draws (declaration : Declaration) :
    Draws declaration.dump declaration.outline := fun writer => by
  simp only [Declaration.dump, bytes_eq, flag_eq, list_eq (Value.allDraw _)]
  rfl

theorem SelectorAtom.draws (atom : SelectorAtom) : Draws atom.dump atom.outline := fun _ => rfl

theorem Feature.draws (feature : Feature) : Draws feature.dump feature.outline := fun _ => rfl

theorem MediaExpression.draws (expression : MediaExpression) :
    Draws expression.dump expression.outline := fun writer => by
  simp only [MediaExpression.dump, flag_eq, optionalBytes_eq, list_map_eq Feature.draws]
  rfl

theorem MediaQuery.draws (query : MediaQuery) : Draws query.dump query.outline := fun writer => by
  simp only [MediaQuery.dump, list_map_eq MediaExpression.draws]
  rfl

theorem ContainerCondition.draws (condition : ContainerCondition) :
    Draws condition.dump condition.outline := fun writer => by
  simp only [ContainerCondition.dump, list_map_eq Feature.draws]
  rfl

mutual

theorem SupportsCondition.draws :
    (condition : SupportsCondition) → Draws condition.dump condition.outline
  | .declaration key value => fun writer => by
    simp only [SupportsCondition.dump, bytes_eq, list_eq (Value.allDraw value)]
    rfl
  | .function name args => fun writer => by
    simp only [SupportsCondition.dump, bytes_eq, list_eq (Value.allDraw args)]
    rfl
  | .operator _ => fun _ => rfl
  | .not inner => fun writer => by
    simp only [SupportsCondition.dump, node_eq inner.draws]
    rfl
  | .group conditions => fun writer => by
    simp only [SupportsCondition.dump, list_eq (allDraw conditions)]
    rfl

theorem SupportsCondition.allDraw : (conditions : List SupportsCondition) →
    List.Forall₂ Draws (SupportsCondition.dumps conditions) (SupportsCondition.outlines conditions)
  | [] => .nil
  | first :: rest => .cons first.draws (allDraw rest)

end

theorem KeyframeStop.draws (stop : KeyframeStop) : Draws stop.dump stop.outline := fun writer => by
  simp only [KeyframeStop.dump, list_map_eq Bytes.draws, list_map_eq Declaration.draws]
  rfl

theorem FeatureBlock.draws (block : FeatureBlock) : Draws block.dump block.outline :=
  fun writer => by
    simp only [FeatureBlock.dump, bytes_eq, list_map_eq Declaration.draws]
    rfl

end Parts

section Nodes

variable {shown : ProfileName → ProfileFields}

/-- `dump` writes an item, which is `expected` if each profile is shown as what it is for. -/
def Drawn (shown : ProfileName → ProfileFields) (dump : Writer → Writer) (expected : Outline) :
    Prop :=
  ∃ outline : Outline, outline.IsItem ∧ Draws dump outline ∧
    (shown = ProfileName.shown → outline = expected)

/-- The same of the members of a list. -/
def AllDrawn (shown : ProfileName → ProfileFields) (dumps : List (Writer → Writer))
    (expected : List Outline) : Prop :=
  ∃ outlines : List Outline, (∀ item ∈ outlines, item.IsItem) ∧
    List.Forall₂ Draws dumps outlines ∧ (shown = ProfileName.shown → outlines = expected)

theorem AllDrawn.nil : AllDrawn shown [] [] :=
  ⟨[], fun _ member => absurd member List.not_mem_nil, .nil, fun _ => rfl⟩

theorem AllDrawn.cons {dump : Writer → Writer} {dumps : List (Writer → Writer)}
    {expected : Outline} {others : List Outline} (first : Drawn shown dump expected)
    (rest : AllDrawn shown dumps others) :
    AllDrawn shown (dump :: dumps) (expected :: others) := by
  obtain ⟨outline, item, draws, same⟩ := first
  obtain ⟨outlines, items, draw, allSame⟩ := rest
  exact ⟨outline :: outlines, List.forall_mem_cons.2 ⟨item, items⟩, .cons draws draw,
    fun is => by rw [same is, allSame is]⟩

/-- What holds no profile. -/
theorem Drawn.of_draws {dump : Writer → Writer} {outline : Outline} (item : outline.IsItem)
    (draws : Draws dump outline) : Drawn shown dump outline :=
  ⟨outline, item, draws, fun _ => rfl⟩

theorem colorProfile_drawn (profile : ProfileName) (declarations : List Declaration) :
    Drawn shown ((Node.colorProfile profile declarations).dump shown)
      (Node.colorProfile profile declarations).outline := by
  refine ⟨.node .colorProfile
    [ .labelled "DeviceCmyk" (.flag (shown profile).isDevice)
    , .labelled "Name" (.optionalBytes (shown profile).name)
    , .declarations declarations ], ?_, fun writer => ?_, ?_⟩
  · exact Outline.isItem_node ⟨Outline.field (by decide) (Outline.isItem_flag _),
      Outline.field (by decide) (Outline.isItem_optional Outline.isItem_bytes _),
      shaped_declarations declarations⟩
  · simp only [Node.dump, flag_eq, optionalBytes_eq, list_map_eq Declaration.draws]
    rfl
  · rintro rfl
    cases profile with
    | deviceCmyk => rfl
    | dashed name => rfl

/-- A node whose last part is a list of rules, behind the parts in `front`. -/
theorem drawn_rules {kind : NodeKind} {rules : List Node} {dump : Writer → Writer}
    (front : List Outline) (fields : front.Forall Outline.Shaped)
    (all : AllDrawn shown (Node.dumps shown rules) (Node.outlines rules))
    (dumps : ∀ writer : Writer, dump writer =
      (((writer.openNode kind).writeAll front).list "Rules" (Node.dumps shown rules)).closeRecord) :
    Drawn shown dump
      (.node kind (front ++ [.labelled "Rules" (.list (Node.outlines rules))])) := by
  obtain ⟨items, isItem, draw, same⟩ := all
  have last : [Outline.labelled "Rules" (.list items)].Forall Outline.Shaped :=
    Outline.field (by decide) (Outline.isItem_list isItem)
  refine ⟨.node kind (front ++ [.labelled "Rules" (.list items)]),
    Outline.isItem_node (List.forall_append.2 ⟨fields, last⟩), fun writer => ?_,
    fun is => by rw [same is]⟩
  have parts := writeAll_append (writer.openNode kind) front [.labelled "Rules" (.list items)]
  rw [dumps, list_eq draw]
  exact congrArg closeRecord parts.symm

mutual

-- A node without rules is drawn as its outline. What holds rules may have a profile within them.
theorem Node.drawn : (node : Node) → Drawn shown (node.dump shown) node.outline
  | .comment text => .of_draws (Node.isItem _) fun _ => rfl
  | .ruleSet selectors rules =>
    drawn_rules [.labelled "Selectors" (.list (selectors.map SelectorAtom.outline))]
      (Outline.field (by decide) (Outline.isItem_map SelectorAtom.isItem _)) (allDrawn rules)
      fun writer => by
        simp only [Node.dump, list_map_eq SelectorAtom.draws]
        rfl
  | .declaration content => .of_draws content.isItem content.draws
  | .media query rules =>
    drawn_rules [.labelled "Query" query.outline] (Outline.field (by decide) query.isItem)
      (allDrawn rules) fun writer => by
        simp only [Node.dump, node_eq query.draws]
        rfl
  | .keyframes name webkit stops => .of_draws (Node.isItem _) fun writer => by
    simp only [Node.dump, bytes_eq, flag_eq, list_map_eq KeyframeStop.draws]
    rfl
  | .importRule url layer support query => .of_draws (Node.isItem _) fun writer => by
    simp only [Node.dump, node_eq url.draws, optionalNode_eq Value.draws,
      optionalNode_eq SupportsCondition.draws, optionalNode_eq MediaQuery.draws]
    rfl
  | .charset name => .of_draws (Node.isItem _) fun _ => rfl
  | .fontFace declarations => .of_draws (Node.isItem _) fun writer => by
    simp only [Node.dump, list_map_eq Declaration.draws]
    rfl
  | .fontFeatureValues families blocks => .of_draws (Node.isItem _) fun writer => by
    simp only [Node.dump, list_map_eq Bytes.draws, list_map_eq FeatureBlock.draws]
    rfl
  | .colorProfile profile declarations => colorProfile_drawn profile declarations
  | .counterStyle name declarations => .of_draws (Node.isItem _) fun writer => by
    simp only [Node.dump, bytes_eq, list_map_eq Declaration.draws]
    rfl
  | .container name query rules =>
    drawn_rules
      [ .labelled "Name" (.optionalBytes name)
      , .labelled "Query" (.list (query.map ContainerCondition.outline)) ]
      ⟨Outline.field (by decide) (Outline.isItem_optional Outline.isItem_bytes _),
        Outline.field (by decide) (Outline.isItem_map ContainerCondition.isItem _)⟩
      (allDrawn rules) fun writer => by
        simp only [Node.dump, optionalBytes_eq, list_map_eq ContainerCondition.draws]
        rfl
  | .supports condition rules =>
    drawn_rules [.labelled "Condition" condition.outline]
      (Outline.field (by decide) condition.isItem) (allDrawn rules) fun writer => by
        simp only [Node.dump, node_eq condition.draws]
        rfl
  | .layerStatement names => .of_draws (Node.isItem _) fun writer => by
    simp only [Node.dump, absent_eq, list_map_eq Bytes.draws]
    rfl
  | .layerBlock names rules =>
    drawn_rules [.labelled "Names" (.list (names.map .bytes))]
      (Outline.field (by decide) (Outline.isItem_map Outline.isItem_bytes _)) (allDrawn rules)
      fun writer => by
        simp only [Node.dump, list_map_eq Bytes.draws]
        rfl
  | .page selector declarations => .of_draws (Node.isItem _) fun writer => by
    simp only [Node.dump, optionalBytes_eq, list_map_eq Declaration.draws]
    rfl
  | .namespaceRule label url => .of_draws (Node.isItem _) fun writer => by
    simp only [Node.dump, optionalBytes_eq, node_eq url.draws]
    rfl
  | .viewport name declarations => .of_draws (Node.isItem _) fun writer => by
    simp only [Node.dump, bytes_eq, list_map_eq Declaration.draws]
    rfl

theorem Node.allDrawn : (nodes : List Node) →
    AllDrawn shown (Node.dumps shown nodes) (Node.outlines nodes)
  | [] => .nil
  | first :: rest => .cons first.drawn (allDrawn rest)

end

end Nodes

namespace TreeValue

theorem drawn (shown : ProfileName → ProfileFields) :
    (value : TreeValue) → Drawn shown (value.dump shown) value.outline
  | bytes content => .of_draws (Outline.isItem_bytes content) content.draws
  | value content => .of_draws content.isItem content.draws
  | declaration content => .of_draws content.isItem content.draws
  | selectorAtom atom => .of_draws atom.isItem atom.draws
  | feature content => .of_draws content.isItem content.draws
  | mediaExpression expression => .of_draws expression.isItem expression.draws
  | mediaQuery query => .of_draws query.isItem query.draws
  | containerCondition condition => .of_draws condition.isItem condition.draws
  | supportsCondition condition => .of_draws condition.isItem condition.draws
  | keyframeStop stop => .of_draws stop.isItem stop.draws
  | featureBlock block => .of_draws block.isItem block.draws
  | node content => content.drawn
  | stylesheet sheet => drawn_rules [] trivial (Node.allDrawn sheet.rules) fun _ => rfl

/-- A value is dumped the same way wherever it stands and whatever fields its profiles hold: the
writer gets the rows of the text of the value on its own, each as deep as the writer is and the
label in front of the first, and is left at its level with no label. If profiles are shown as what
they are for, this is how the outline of the value is written. -/
theorem dump_nested (value : TreeValue) (shown : ProfileName → ProfileFields) (writer : Writer) :
    value.dump shown writer = ⟨writer.text ++ String.ofList (nested writer.level writer.label
        (rows (value.dumpText shown))), writer.level, none⟩ ∧
      value.dump ProfileName.shown writer = writer.write value.outline := by
  constructor
  · obtain ⟨outline, item, draws, -⟩ := value.drawn shown
    have alone : value.dumpText shown = outline.text := congrArg finish (draws .empty)
    rw [draws, write_nested item, alone]
  · obtain ⟨outline, -, draws, same⟩ := value.drawn ProfileName.shown
    rw [draws, same rfl]

end TreeValue

end CssSyntax

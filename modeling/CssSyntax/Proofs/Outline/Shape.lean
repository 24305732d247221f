import CssSyntax.Proofs.Outline.Lines
import CssSyntax.Syntax.Tree

/-! The outlines of trees are of the shape that is read back from a text, whatever the bytes in the
tree are: quoted text holds no line feed and opens no block. -/

namespace CssSyntax

instance (content : String) : Decidable (IsContent content) :=
  decidable_of_iff (content.toList ≠ [] ∧ '\n' ∉ content.toList ∧
      content.toList.head? ≠ some ' ' ∧ (content.toList.dropWhile Char.isAlpha).head? ≠ some ':')
    ⟨fun is => ⟨is.1, is.2.1, is.2.2.1, is.2.2.2⟩,
      fun is => ⟨is.filled, is.inLine, is.indented, is.unlabelled⟩⟩

instance (text : String) : Decidable (IsWord text) :=
  decidable_of_iff (text.toList.all Char.isAlpha = true) List.all_eq_true

instance (content : String) : Decidable (Outline.Opens content) :=
  inferInstanceAs (Decidable (_ ∨ _))

/-- Content that shows within itself that it has no label, whatever stands behind it. -/
structure IsStart (text : String) : Prop where
  content : IsContent text
  marked : text.toList.dropWhile Char.isAlpha ≠ []

instance (text : String) : Decidable (IsStart text) :=
  decidable_of_iff (IsContent text ∧ text.toList.dropWhile Char.isAlpha ≠ [])
    ⟨fun is => ⟨is.1, is.2⟩, fun is => ⟨is.content, is.marked⟩⟩

/-- A start goes on with anything that stays on its line. -/
theorem IsStart.append {start rest : String} (is : IsStart start) (inLine : '\n' ∉ rest.toList) :
    IsStart (start ++ rest) := by
  have letters : (start ++ rest).toList.dropWhile Char.isAlpha =
      start.toList.dropWhile Char.isAlpha ++ rest.toList := by
    rw [String.toList_append, List.dropWhile_append]
    simp [is.marked]
  refine ⟨⟨?_, ?_, ?_, ?_⟩, ?_⟩
  · rw [String.toList_append]
    exact List.append_ne_nil_of_left_ne_nil is.content.filled _
  · rw [String.toList_append, List.mem_append]
    exact not_or.2 ⟨is.content.inLine, inLine⟩
  · rw [String.toList_append, List.head?_append_of_ne_nil _ is.content.filled]
    exact is.content.indented
  · rw [letters, List.head?_append_of_ne_nil _ is.marked]
    exact is.content.unlabelled
  · rw [letters]
    exact List.append_ne_nil_of_left_ne_nil is.marked _

theorem isStart_quoted (bytes : Bytes) : IsStart (quoted bytes) := by
  have quote : (quoted bytes).toList.dropWhile Char.isAlpha = (quoted bytes).toList := by
    rw [quoted_toList]
    rfl
  have head : (quoted bytes).toList.head? = some '"' := by
    rw [quoted_toList]
    rfl
  refine ⟨⟨?_, newline_not_mem_quoted bytes, ?_, ?_⟩, ?_⟩
  · rw [quoted_toList]
    exact List.cons_ne_nil _ _
  · rw [head]
    decide
  · rw [quote, head]
    decide
  · rw [quote, quoted_toList]
    exact List.cons_ne_nil _ _

namespace Outline

/-- An outline that may stand after a label, and among the members of a block. -/
structure IsItem (outline : Outline) : Prop where
  shaped : outline.Shaped
  single : ∀ name inner, outline ≠ .labelled name inner

theorem isItem_leaf {text : String} (content : IsContent text) (closed : ¬Opens text) :
    (leaf text).IsItem :=
  ⟨.leaf content closed, fun _ _ => nofun⟩

theorem not_opens_append_brace (front : String) : ¬Opens (front ++ " \x7d") := by
  unfold Opens
  rw [String.toList_append, List.getLast?_append_of_ne_nil _ (by decide)]
  decide

/-- A node on one line. -/
theorem isItem_line {front : String} (start : IsStart front) : (leaf (front ++ " \x7d")).IsItem :=
  isItem_leaf (start.append (by decide)).content (not_opens_append_brace front)

theorem isItem_bytes (value : Bytes) : (bytes value).IsItem := by
  refine isItem_leaf (isStart_quoted value).content ?_
  have last : (quoted value).toList.getLast? = some '"' := by
    rw [quoted_toList, ← List.cons_append, List.getLast?_append_of_ne_nil _ (List.cons_ne_nil _ _)]
    rfl
  unfold Opens
  rw [last]
  decide

theorem isItem_flag (value : Bool) : (flag value).IsItem := by
  cases value with
  | false => exact isItem_leaf (by decide) (by decide)
  | true => exact isItem_leaf (by decide) (by decide)

theorem isItem_none : none.IsItem := isItem_leaf (by decide) (by decide)

theorem isItem_optional {α : Type} {outline : α → Outline} (each : ∀ value, (outline value).IsItem)
    (value : Option α) : (optional (value.map outline)).IsItem := by
  cases value with
  | none => exact isItem_none
  | some content => exact each content

theorem isItem_list {items : List Outline} (each : ∀ item ∈ items, item.IsItem) :
    (list items).IsItem := by
  cases items with
  | nil => exact isItem_leaf (by decide) (by decide)
  | cons first rest =>
    refine ⟨.block (by decide) (by decide) (by decide) fun item member => ?_, fun _ _ => nofun⟩
    exact (each item member).shaped

theorem isItem_map {α : Type} {outline : α → Outline} (each : ∀ value, (outline value).IsItem)
    (values : List α) : (list (values.map outline)).IsItem := by
  refine isItem_list fun item member => ?_
  obtain ⟨value, -, rfl⟩ := List.mem_map.1 member
  exact each value

theorem field {label : String} {body : Outline} (word : IsWord label) (item : body.IsItem) :
    (labelled label body).Shaped :=
  .labelled word item.single item.shaped

/-- The line that opens a record. -/
theorem opens_record (name : String) : Opens (name ++ " \x7b") := by
  left
  rw [String.toList_append, List.getLast?_append_of_ne_nil _ (by decide)]
  decide

theorem isContent_record {name : String} (word : IsWord name) (some : name.toList ≠ []) :
    IsContent (name ++ " \x7b") := by
  have letters : (name ++ " \x7b").toList.dropWhile Char.isAlpha = [' ', '\x7b'] := by
    rw [String.toList_append, List.dropWhile_append_of_pos word]
    decide
  refine ⟨?_, ?_, ?_, ?_⟩
  · rw [String.toList_append]
    exact List.append_ne_nil_of_left_ne_nil some _
  · rw [String.toList_append, List.mem_append]
    exact not_or.2 ⟨Line.newline_not_mem_word word, by decide⟩
  · rw [String.toList_append, List.head?_append_of_ne_nil _ some]
    intro space
    exact absurd (word ' ' (List.mem_of_mem_head? space)) (by decide)
  · rw [letters]
    decide

theorem isItem_record {name : String} {fields : List Outline} (word : IsWord name)
    (some : name.toList ≠ []) (each : fields.Forall Shaped) : (record name fields).IsItem :=
  ⟨.block (opens_record name) (isContent_record word some) (by decide)
    (List.forall_iff_forall_mem.1 each), fun _ _ => nofun⟩

theorem isItem_node {kind : NodeKind} {fields : List Outline} (each : fields.Forall Shaped) :
    (node kind fields).IsItem := by
  have word : IsWord kind.name := by cases kind <;> decide
  have some : kind.name.toList ≠ [] := by cases kind <;> decide
  exact isItem_record word some each

end Outline

open Outline

section Conditions

mutual

theorem Value.isItem : (value : Value) → value.outline.IsItem
  | .basic bytes => by
    have start : IsStart ("BasicValue \x7b Value: " ++ quoted bytes) :=
      IsStart.append (by decide) (newline_not_mem_quoted bytes)
    exact isItem_line start
  | .string literal => by
    have start : IsStart ("StringValue \x7b SingleQuote: "
        ++ (if literal.isSingleQuoted then "true" else "false")) := by
      cases literal.isSingleQuoted <;> decide
    exact isItem_line ((start.append (by decide)).append (newline_not_mem_quoted _))
  | .function name args =>
    isItem_record (by decide) (by decide)
      ⟨field (by decide) (isItem_bytes name), field (by decide) (isItem_list (allItems args))⟩

theorem Value.allItems : (values : List Value) → ∀ item ∈ Value.outlines values, item.IsItem
  | [] => fun _ member => absurd member List.not_mem_nil
  | first :: rest => List.forall_mem_cons.2 ⟨first.isItem, allItems rest⟩

end

theorem Declaration.isItem (declaration : Declaration) : declaration.outline.IsItem :=
  isItem_record (by decide) (by decide)
    ⟨field (by decide) (isItem_bytes _), field (by decide) (isItem_list (Value.allItems _)),
      field (by decide) (isItem_flag _)⟩

theorem Feature.isItem (feature : Feature) : feature.outline.IsItem := by
  have start : IsStart "MediaFeature \x7b Name: " := by decide
  have named := start.append (newline_not_mem_quoted feature.name)
  have valued : '\n' ∉ ((feature.value.map quoted).getD "none").toList := by
    cases feature.value with
    | none => decide
    | some value => exact newline_not_mem_quoted value
  exact isItem_line ((named.append (by decide)).append valued)

theorem MediaExpression.isItem (expression : MediaExpression) : expression.outline.IsItem :=
  isItem_record (by decide) (by decide)
    ⟨field (by decide) (isItem_flag _), field (by decide) (isItem_flag _),
      field (by decide) (isItem_optional isItem_bytes _),
      field (by decide) (isItem_map Feature.isItem _)⟩

theorem MediaQuery.isItem (query : MediaQuery) : query.outline.IsItem := by
  have expressions := isItem_map MediaExpression.isItem query.expressions
  exact isItem_record (by decide) (by decide) (field (by decide) expressions)

theorem ContainerCondition.isItem (condition : ContainerCondition) : condition.outline.IsItem := by
  have features := isItem_map Feature.isItem condition.features
  exact isItem_record (by decide) (by decide) (field (by decide) features)

mutual

theorem SupportsCondition.isItem : (condition : SupportsCondition) → condition.outline.IsItem
  | .declaration key value =>
    isItem_record (by decide) (by decide)
      ⟨field (by decide) (isItem_bytes key), field (by decide) (isItem_list (Value.allItems value))⟩
  | .function name args =>
    isItem_record (by decide) (by decide)
      ⟨field (by decide) (isItem_bytes name), field (by decide) (isItem_list (Value.allItems args))⟩
  | .operator word => by
    have start : IsStart "SupportsOperator \x7b Op: " := by decide
    exact isItem_line (start.append (newline_not_mem_quoted word))
  | .not inner => isItem_record (by decide) (by decide) (field (by decide) inner.isItem)
  | .group conditions =>
    isItem_record (by decide) (by decide) (field (by decide) (isItem_list (allItems conditions)))

theorem SupportsCondition.allItems :
    (conditions : List SupportsCondition) →
      ∀ item ∈ SupportsCondition.outlines conditions, item.IsItem
  | [] => fun _ member => absurd member List.not_mem_nil
  | first :: rest => List.forall_mem_cons.2 ⟨first.isItem, allItems rest⟩

end

end Conditions

section Nodes

theorem SelectorAtom.isItem (atom : SelectorAtom) : atom.outline.IsItem := by
  have start : IsStart ("SelectorValue \x7b Kind: " ++ atom.kind.name) := by
    cases atom.kind <;> decide
  exact isItem_line ((start.append (by decide)).append (newline_not_mem_quoted _))

theorem shaped_declarations (content : List Declaration) : (declarations content).Shaped :=
  field (by decide) (isItem_map Declaration.isItem content)

theorem shaped_name (name : Bytes) : (labelled "Name" (bytes name)).Shaped :=
  field (by decide) (isItem_bytes name)

theorem KeyframeStop.isItem (stop : KeyframeStop) : stop.outline.IsItem :=
  isItem_node ⟨field (by decide) (isItem_map isItem_bytes _),
    field (by decide) (isItem_map Declaration.isItem _)⟩

theorem FeatureBlock.isItem (block : FeatureBlock) : block.outline.IsItem :=
  isItem_node ⟨shaped_name _, shaped_declarations _⟩

theorem shaped_rules {rules : List Node} (each : ∀ item ∈ Node.outlines rules, item.IsItem) :
    (labelled "Rules" (list (Node.outlines rules))).Shaped :=
  field (by decide) (isItem_list each)

mutual

theorem Node.isItem : (node : Node) → node.outline.IsItem
  | .comment text => by
    have start : IsStart "Comment \x7b Text: " := by decide
    exact isItem_line (start.append (newline_not_mem_quoted text))
  | .ruleSet selectors rules =>
    isItem_node ⟨field (by decide) (isItem_map SelectorAtom.isItem selectors),
      shaped_rules (allItems rules)⟩
  | .declaration content => content.isItem
  | .media query rules =>
    isItem_node ⟨field (by decide) query.isItem, shaped_rules (allItems rules)⟩
  | .keyframes name webkit stops =>
    isItem_node ⟨shaped_name name, field (by decide) (isItem_flag webkit),
      field (by decide) (isItem_map KeyframeStop.isItem stops)⟩
  | .importRule url layer support query =>
    isItem_node ⟨field (by decide) url.isItem,
      field (by decide) (isItem_optional Value.isItem layer),
      field (by decide) (isItem_optional SupportsCondition.isItem support),
      field (by decide) (isItem_optional MediaQuery.isItem query)⟩
  | .charset name => isItem_node (field (by decide) (isItem_bytes name))
  | .fontFace declarations => isItem_node (shaped_declarations declarations)
  | .fontFeatureValues families blocks =>
    isItem_node ⟨field (by decide) (isItem_map isItem_bytes families),
      field (by decide) (isItem_map FeatureBlock.isItem blocks)⟩
  | .colorProfile profile declarations => by
    have declared := shaped_declarations declarations
    cases profile with
    | deviceCmyk =>
      exact isItem_node ⟨field (by decide) (isItem_flag _), field (by decide) isItem_none, declared⟩
    | dashed name =>
      exact isItem_node ⟨field (by decide) (isItem_flag _), shaped_name name, declared⟩
  | .counterStyle name declarations =>
    isItem_node ⟨shaped_name name, shaped_declarations declarations⟩
  | .container name query rules =>
    isItem_node ⟨field (by decide) (isItem_optional isItem_bytes name),
      field (by decide) (isItem_map ContainerCondition.isItem query), shaped_rules (allItems rules)⟩
  | .supports condition rules =>
    isItem_node ⟨field (by decide) condition.isItem, shaped_rules (allItems rules)⟩
  | .layerStatement names =>
    isItem_node ⟨field (by decide) (isItem_map isItem_bytes names), field (by decide) isItem_none⟩
  | .layerBlock names rules =>
    isItem_node ⟨field (by decide) (isItem_map isItem_bytes names), shaped_rules (allItems rules)⟩
  | .page selector declarations =>
    isItem_node ⟨field (by decide) (isItem_optional isItem_bytes selector),
      shaped_declarations declarations⟩
  | .namespaceRule label url =>
    isItem_node ⟨field (by decide) (isItem_optional isItem_bytes label),
      field (by decide) url.isItem⟩
  | .viewport name declarations =>
    isItem_node ⟨shaped_name name, shaped_declarations declarations⟩

theorem Node.allItems : (nodes : List Node) → ∀ item ∈ Node.outlines nodes, item.IsItem
  | [] => fun _ member => absurd member List.not_mem_nil
  | first :: rest => List.forall_mem_cons.2 ⟨first.isItem, allItems rest⟩

end

theorem Stylesheet.shaped (sheet : Stylesheet) : sheet.outline.Shaped := by
  have item : sheet.outline.IsItem := isItem_node (shaped_rules (Node.allItems sheet.rules))
  exact item.shaped

end Nodes

end CssSyntax

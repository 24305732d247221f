import CssSyntax.Proofs.Outline.Shape

/-! A tree is told apart by its text. The text shows the outline, and the outline shows the tree:
each node by its name, each part under its own label. What is asked of the trees is that their
bytes are UTF-8, as bytes that are not are all written alike. -/

namespace CssSyntax

/-- The bytes in a value are UTF-8. -/
inductive Value.IsUtf8 : Value → Prop
  | basic {bytes : Bytes} (content : bytes.IsUtf8) : IsUtf8 (.basic bytes)
  | string {literal : StringLiteral} (content : literal.content.IsUtf8) :
      IsUtf8 (.string literal)
  | function {name : Bytes} {args : List Value} (callee : name.IsUtf8)
      (inner : ∀ arg ∈ args, IsUtf8 arg) : IsUtf8 (.function name args)

structure Declaration.IsUtf8 (declaration : Declaration) : Prop where
  key : declaration.key.IsUtf8
  value : ∀ value ∈ declaration.value, value.IsUtf8

structure Feature.IsUtf8 (feature : Feature) : Prop where
  name : feature.name.IsUtf8
  value : ∀ value ∈ feature.value, value.IsUtf8

structure MediaExpression.IsUtf8 (expression : MediaExpression) : Prop where
  mediaType : ∀ name ∈ expression.mediaType, name.IsUtf8
  features : ∀ feature ∈ expression.features, feature.IsUtf8

def MediaQuery.IsUtf8 (query : MediaQuery) : Prop :=
  ∀ expression ∈ query.expressions, expression.IsUtf8

def ContainerCondition.IsUtf8 (condition : ContainerCondition) : Prop :=
  ∀ feature ∈ condition.features, feature.IsUtf8

inductive SupportsCondition.IsUtf8 : SupportsCondition → Prop
  | declaration {key : Bytes} {value : List Value} (named : key.IsUtf8)
      (values : ∀ entry ∈ value, entry.IsUtf8) : IsUtf8 (.declaration key value)
  | function {name : Bytes} {args : List Value} (callee : name.IsUtf8)
      (values : ∀ arg ∈ args, arg.IsUtf8) : IsUtf8 (.function name args)
  | operator {word : Bytes} (is : word.IsUtf8) : IsUtf8 (.operator word)
  | not {inner : SupportsCondition} (negated : IsUtf8 inner) : IsUtf8 (.not inner)
  | group {conditions : List SupportsCondition}
      (inner : ∀ condition ∈ conditions, IsUtf8 condition) : IsUtf8 (.group conditions)

structure KeyframeStop.IsUtf8 (stop : KeyframeStop) : Prop where
  stops : ∀ name ∈ stop.stops, name.IsUtf8
  declarations : ∀ declaration ∈ stop.declarations, declaration.IsUtf8

structure FeatureBlock.IsUtf8 (block : FeatureBlock) : Prop where
  name : block.name.IsUtf8
  declarations : ∀ declaration ∈ block.declarations, declaration.IsUtf8

def ProfileName.IsUtf8 : ProfileName → Prop
  | deviceCmyk => True
  | dashed name => name.IsUtf8

/-- The bytes in a node, and in all that is inside it, are UTF-8. -/
inductive Node.IsUtf8 : Node → Prop
  | comment {text : Bytes} (content : text.IsUtf8) : IsUtf8 (.comment text)
  | ruleSet {selectors : List SelectorAtom} {rules : List Node}
      (atoms : ∀ atom ∈ selectors, atom.value.IsUtf8) (inner : ∀ rule ∈ rules, IsUtf8 rule) :
      IsUtf8 (.ruleSet selectors rules)
  | declaration {content : Declaration} (is : content.IsUtf8) : IsUtf8 (.declaration content)
  | media {query : MediaQuery} {rules : List Node} (queried : query.IsUtf8)
      (inner : ∀ rule ∈ rules, IsUtf8 rule) : IsUtf8 (.media query rules)
  | keyframes {name : Bytes} {webkit : Bool} {stops : List KeyframeStop} (named : name.IsUtf8)
      (stopped : ∀ stop ∈ stops, stop.IsUtf8) : IsUtf8 (.keyframes name webkit stops)
  | importRule {url : Value} {layer : Option Value} {supports : Option SupportsCondition}
      {media : Option MediaQuery} (address : url.IsUtf8) (layered : ∀ value ∈ layer, value.IsUtf8)
      (supported : ∀ condition ∈ supports, condition.IsUtf8)
      (queried : ∀ query ∈ media, query.IsUtf8) : IsUtf8 (.importRule url layer supports media)
  | charset {name : Bytes} (named : name.IsUtf8) : IsUtf8 (.charset name)
  | fontFace {declarations : List Declaration}
      (declared : ∀ declaration ∈ declarations, declaration.IsUtf8) :
      IsUtf8 (.fontFace declarations)
  | fontFeatureValues {families : List Bytes} {blocks : List FeatureBlock}
      (named : ∀ name ∈ families, name.IsUtf8) (inner : ∀ block ∈ blocks, block.IsUtf8) :
      IsUtf8 (.fontFeatureValues families blocks)
  | colorProfile {profile : ProfileName} {declarations : List Declaration} (named : profile.IsUtf8)
      (declared : ∀ declaration ∈ declarations, declaration.IsUtf8) :
      IsUtf8 (.colorProfile profile declarations)
  | counterStyle {name : Bytes} {declarations : List Declaration} (named : name.IsUtf8)
      (declared : ∀ declaration ∈ declarations, declaration.IsUtf8) :
      IsUtf8 (.counterStyle name declarations)
  | container {name : Option Bytes} {query : List ContainerCondition} {rules : List Node}
      (named : ∀ label ∈ name, label.IsUtf8) (queried : ∀ condition ∈ query, condition.IsUtf8)
      (inner : ∀ rule ∈ rules, IsUtf8 rule) : IsUtf8 (.container name query rules)
  | supports {condition : SupportsCondition} {rules : List Node} (supported : condition.IsUtf8)
      (inner : ∀ rule ∈ rules, IsUtf8 rule) : IsUtf8 (.supports condition rules)
  | layerStatement {names : List Bytes} (named : ∀ name ∈ names, name.IsUtf8) :
      IsUtf8 (.layerStatement names)
  | layerBlock {names : List Bytes} {rules : List Node} (named : ∀ name ∈ names, name.IsUtf8)
      (inner : ∀ rule ∈ rules, IsUtf8 rule) : IsUtf8 (.layerBlock names rules)
  | page {selector : Option Bytes} {declarations : List Declaration}
      (selected : ∀ name ∈ selector, name.IsUtf8)
      (declared : ∀ declaration ∈ declarations, declaration.IsUtf8) :
      IsUtf8 (.page selector declarations)
  | namespaceRule {label : Option Bytes} {url : Value} (named : ∀ name ∈ label, name.IsUtf8)
      (address : url.IsUtf8) : IsUtf8 (.namespaceRule label url)
  | viewport {name : Bytes} {declarations : List Declaration} (named : name.IsUtf8)
      (declared : ∀ declaration ∈ declarations, declaration.IsUtf8) :
      IsUtf8 (.viewport name declarations)

def Stylesheet.IsUtf8 (sheet : Stylesheet) : Prop := ∀ rule ∈ sheet.rules, rule.IsUtf8

section Parts

/-- What is told apart by its outline, from anything whose bytes are UTF-8. -/
def ToldApart {α : Type} (outline : α → Outline) (isText : α → Prop) (value : α) : Prop :=
  ∀ other, isText other → outline value = outline other → value = other

variable {α : Type} {outline : α → Outline} {isText : α → Prop}

theorem map_unique {left right : List α} (each : ∀ value ∈ left, ToldApart outline isText value)
    (texts : ∀ value ∈ right, isText value) (same : left.map outline = right.map outline) :
    left = right := by
  induction left generalizing right with
  | nil => exact (List.map_eq_nil_iff.1 same.symm).symm
  | cons first rest ih =>
    cases right with
    | nil => exact absurd same (List.cons_ne_nil _ _)
    | cons second others =>
      obtain ⟨heads, tails⟩ := List.cons.inj same
      have firsts := each first List.mem_cons_self second (texts second List.mem_cons_self) heads
      have rests := ih (fun value member => each value (List.mem_cons_of_mem _ member))
        (fun value member => texts value (List.mem_cons_of_mem _ member)) tails
      rw [firsts, rests]

namespace Outline

theorem list_injective {left right : List Outline} (same : list left = list right) :
    left = right := by
  cases left with
  | nil =>
    cases right with
    | nil => rfl
    | cons second others => exact Outline.noConfusion same
  | cons first rest =>
    cases right with
    | nil => exact Outline.noConfusion same
    | cons second others => exact (block.inj same).2.1

theorem list_unique {left right : List α} (each : ∀ value ∈ left, ToldApart outline isText value)
    (texts : ∀ value ∈ right, isText value)
    (same : list (left.map outline) = list (right.map outline)) : left = right :=
  map_unique each texts (list_injective same)

theorem optional_unique {left right : Option α}
    (each : ∀ value ∈ left, ToldApart outline isText value) (texts : ∀ value ∈ right, isText value)
    (some : ∀ value, outline value ≠ none)
    (same : optional (left.map outline) = optional (right.map outline)) : left = right := by
  cases left with
  | none =>
    cases right with
    | none => rfl
    | some second => exact absurd same.symm (some second)
  | some first =>
    cases right with
    | none => exact absurd same (some first)
    | some second => rw [each first rfl second (texts second rfl) same]

theorem flag_injective {left right : Bool} (same : flag left = flag right) : left = right := by
  cases left <;> cases right <;> first | rfl | exact absurd (leaf.inj same) (by decide)

@[simp]
theorem record_inj {name other : String} {fields others : List Outline} :
    record name fields = record other others ↔ name = other ∧ fields = others := by
  simp [record]

@[simp]
theorem node_inj {kind other : NodeKind} {fields others : List Outline} :
    node kind fields = node other others ↔ kind.name = other.name ∧ fields = others := record_inj

@[simp]
theorem fields_inj {label : String} {body other : Outline} {rest others : List Outline} :
    labelled label body :: rest = labelled label other :: others ↔
      body = other ∧ rest = others := by
  simp

/-- What stands between a start and the end of a line. -/
theorem quoted_unique {start : String} {left right : Bytes} (leftText : left.IsUtf8)
    (rightText : right.IsUtf8)
    (same : leaf (start ++ quoted left ++ " \x7d") = leaf (start ++ quoted right ++ " \x7d")) :
    left = right := by
  have texts := congrArg String.toList (leaf.inj same)
  simp only [String.toList_append, List.append_assoc] at texts
  exact (quoted_append_unique leftText rightText (List.append_cancel_left texts)).1

theorem bytes_unique {left right : Bytes} (leftText : left.IsUtf8) (rightText : right.IsUtf8)
    (same : bytes left = bytes right) : left = right := by
  have texts := congrArg (· ++ []) (congrArg String.toList (leaf.inj same))
  exact (quoted_append_unique leftText rightText texts).1

theorem bytes_ne_none (value : Bytes) : bytes value ≠ none := by
  intro same
  have texts := congrArg String.toList (leaf.inj same)
  rw [quoted_toList] at texts
  exact absurd (List.cons.inj texts).1 (by decide)

theorem list_ne_none (items : List Outline) : list items ≠ none := by
  cases items with
  | nil => exact fun same => absurd (leaf.inj same) (by decide)
  | cons first rest => exact Outline.noConfusion

end Outline

theorem Bytes.IsUtf8.toldApart {bytes : Bytes} (is : bytes.IsUtf8) :
    ToldApart Outline.bytes Bytes.IsUtf8 bytes :=
  fun _ other same => Outline.bytes_unique is other same

end Parts

open Outline

section Conditions

theorem Value.outlines_eq (values : List Value) :
    Value.outlines values = values.map Value.outline := by
  induction values with
  | nil => rfl
  | cons first rest ih => exact congrArg (first.outline :: ·) ih

theorem StringLiteral.toldApart {literal : StringLiteral} (is : literal.content.IsUtf8) :
    ToldApart StringLiteral.outline (fun other => other.content.IsUtf8) literal := by
  intro other otherIs same
  obtain ⟨single, content⟩ := literal
  obtain ⟨otherSingle, otherContent⟩ := other
  -- The flags start with letters of their own.
  have flags : single = otherSingle := by
    have texts := congrArg String.toList (leaf.inj same)
    cases single <;> cases otherSingle <;> first | rfl | simp at texts
  subst flags
  exact congrArg (StringLiteral.mk single) (quoted_unique is otherIs same)

theorem Value.IsUtf8.toldApart {value : Value} (is : value.IsUtf8) :
    ToldApart Value.outline Value.IsUtf8 value := by
  induction is with
  | basic content =>
    intro other otherIs same
    cases otherIs with
    | basic otherContent => rw [quoted_unique content otherContent same]
    | string _ => exact absurd (congrArg String.toList (leaf.inj same)) (by simp)
    | function _ _ => exact Outline.noConfusion same
  | string content =>
    intro other otherIs same
    cases otherIs with
    | basic _ => exact absurd (congrArg String.toList (leaf.inj same)) (by simp)
    | string otherContent => rw [StringLiteral.toldApart content _ otherContent same]
    | function _ _ => exact Outline.noConfusion same
  | function callee _ inner =>
    intro other otherIs same
    cases otherIs with
    | basic _ => exact Outline.noConfusion same
    | string _ => exact Outline.noConfusion same
    | function otherCallee otherInner =>
      simp only [Value.outline, Value.outlines_eq, record_inj, fields_inj, true_and,
        and_true] at same
      rw [bytes_unique callee otherCallee same.1, list_unique inner otherInner same.2]

/-- The values of two nodes, as they are listed. -/
theorem Value.listed_unique {left right : List Value} (leftIs : ∀ value ∈ left, value.IsUtf8)
    (rightIs : ∀ value ∈ right, value.IsUtf8)
    (same : list (Value.outlines left) = list (Value.outlines right)) : left = right := by
  rw [Value.outlines_eq, Value.outlines_eq] at same
  exact list_unique (fun value member => (leftIs value member).toldApart) rightIs same

theorem Declaration.IsUtf8.toldApart {declaration : Declaration} (is : declaration.IsUtf8) :
    ToldApart Declaration.outline Declaration.IsUtf8 declaration := by
  intro other otherIs same
  obtain ⟨key, value, important⟩ := declaration
  obtain ⟨otherKey, otherValue, otherImportant⟩ := other
  simp only [Declaration.outline, record_inj, fields_inj, true_and, and_true] at same
  obtain ⟨keys, values, flags⟩ := same
  obtain rfl : key = otherKey := bytes_unique is.key otherIs.key keys
  obtain rfl : value = otherValue := Value.listed_unique is.value otherIs.value values
  rw [flag_injective flags]

theorem Feature.IsUtf8.toldApart {feature : Feature} (is : feature.IsUtf8) :
    ToldApart Feature.outline Feature.IsUtf8 feature := by
  intro other otherIs same
  obtain ⟨name, value⟩ := feature
  obtain ⟨otherName, otherValue⟩ := other
  have texts := congrArg String.toList (leaf.inj same)
  simp only [String.toList_append, List.append_assoc] at texts
  obtain ⟨rfl, behind⟩ := quoted_append_unique is.name otherIs.name (List.append_cancel_left texts)
  have values := List.append_cancel_left behind
  -- A quoted value starts with its quote, an absent one does not.
  cases value with
  | none =>
    cases otherValue with
    | none => rfl
    | some _ => simp [quoted_toList] at values
  | some content =>
    cases otherValue with
    | none => simp [quoted_toList] at values
    | some otherContent =>
      have contents :=
        (quoted_append_unique (is.value content rfl) (otherIs.value otherContent rfl) values).1
      rw [contents]

theorem MediaExpression.IsUtf8.toldApart {expression : MediaExpression} (is : expression.IsUtf8) :
    ToldApart MediaExpression.outline MediaExpression.IsUtf8 expression := by
  intro other otherIs same
  obtain ⟨isNot, isOnly, mediaType, features⟩ := expression
  obtain ⟨otherNot, otherOnly, otherType, otherFeatures⟩ := other
  simp only [MediaExpression.outline, record_inj, fields_inj, true_and, and_true] at same
  obtain ⟨nots, onlys, types, listed⟩ := same
  obtain rfl : mediaType = otherType :=
    optional_unique (fun name member => (is.mediaType name member).toldApart) otherIs.mediaType
      bytes_ne_none types
  obtain rfl : features = otherFeatures :=
    list_unique (fun feature member => (is.features feature member).toldApart) otherIs.features
      listed
  rw [flag_injective nots, flag_injective onlys]

theorem MediaQuery.IsUtf8.toldApart {query : MediaQuery} (is : query.IsUtf8) :
    ToldApart MediaQuery.outline MediaQuery.IsUtf8 query := by
  intro other otherIs same
  simp only [MediaQuery.outline, record_inj, fields_inj, true_and, and_true] at same
  exact congrArg MediaQuery.mk
    (list_unique (fun expression member => (is expression member).toldApart) otherIs same)

theorem ContainerCondition.IsUtf8.toldApart {condition : ContainerCondition}
    (is : condition.IsUtf8) :
    ToldApart ContainerCondition.outline ContainerCondition.IsUtf8 condition := by
  intro other otherIs same
  simp only [ContainerCondition.outline, record_inj, fields_inj, true_and, and_true] at same
  exact congrArg ContainerCondition.mk
    (list_unique (fun feature member => (is feature member).toldApart) otherIs same)

theorem SupportsCondition.outlines_eq (conditions : List SupportsCondition) :
    SupportsCondition.outlines conditions = conditions.map SupportsCondition.outline := by
  induction conditions with
  | nil => rfl
  | cons first rest ih => exact congrArg (first.outline :: ·) ih

theorem SupportsCondition.IsUtf8.toldApart {condition : SupportsCondition} (is : condition.IsUtf8) :
    ToldApart SupportsCondition.outline SupportsCondition.IsUtf8 condition := by
  induction is with
  | declaration named values =>
    intro other otherIs same
    cases otherIs with
    | declaration otherNamed otherValues =>
      simp only [SupportsCondition.outline, record_inj, fields_inj, true_and, and_true] at same
      rw [bytes_unique named otherNamed same.1, Value.listed_unique values otherValues same.2]
    | operator _ => exact Outline.noConfusion same
    | _ => exact absurd (record_inj.1 same).1 (by decide)
  | function callee values =>
    intro other otherIs same
    cases otherIs with
    | function otherCallee otherValues =>
      simp only [SupportsCondition.outline, record_inj, fields_inj, true_and, and_true] at same
      rw [bytes_unique callee otherCallee same.1, Value.listed_unique values otherValues same.2]
    | operator _ => exact Outline.noConfusion same
    | _ => exact absurd (record_inj.1 same).1 (by decide)
  | operator word =>
    intro other otherIs same
    cases otherIs with
    | operator otherWord => rw [quoted_unique word otherWord same]
    | _ => exact Outline.noConfusion same
  | not _ inner =>
    intro other otherIs same
    cases otherIs with
    | not otherInner =>
      simp only [SupportsCondition.outline, record_inj, fields_inj, true_and, and_true] at same
      rw [inner _ otherInner same]
    | operator _ => exact Outline.noConfusion same
    | _ => exact absurd (record_inj.1 same).1 (by decide)
  | group _ inner =>
    intro other otherIs same
    cases otherIs with
    | group otherInner =>
      simp only [SupportsCondition.outline, SupportsCondition.outlines_eq, record_inj, fields_inj,
        true_and, and_true] at same
      rw [list_unique inner otherInner same]
    | operator _ => exact Outline.noConfusion same
    | _ => exact absurd (record_inj.1 same).1 (by decide)

end Conditions

section Nodes

theorem SelectorKind.name_injective {left right : SelectorKind} (same : left.name = right.name) :
    left = right := by
  cases left <;> cases right <;> first | rfl | exact absurd same (by decide)

theorem SelectorKind.isWord_name (kind : SelectorKind) : IsWord kind.name := by
  cases kind <;> decide

theorem SelectorAtom.toldApart {atom : SelectorAtom} (is : atom.value.IsUtf8) :
    ToldApart SelectorAtom.outline (fun other => other.value.IsUtf8) atom := by
  intro other otherIs same
  obtain ⟨kind, value⟩ := atom
  obtain ⟨otherKind, otherValue⟩ := other
  have kinds : kind = otherKind := by
    have texts := congrArg String.toList (leaf.inj same)
    simp only [String.toList_append, List.append_assoc] at texts
    obtain ⟨names, -, -⟩ := front_unique kind.isWord_name otherKind.isWord_name (by decide)
      (by decide) (List.append_cancel_left texts)
    exact SelectorKind.name_injective (String.toList_inj.1 names)
  subst kinds
  exact congrArg (SelectorAtom.mk kind) (quoted_unique is otherIs same)

/-- The declarations of two nodes, which come last in them. -/
theorem declarations_unique {left right : List Declaration}
    (leftIs : ∀ declaration ∈ left, declaration.IsUtf8)
    (rightIs : ∀ declaration ∈ right, declaration.IsUtf8)
    (same : [declarations left] = [declarations right]) : left = right :=
  list_unique (fun declaration member => (leftIs declaration member).toldApart) rightIs
    (fields_inj.1 same).1

/-- The names of two nodes, as they are listed. -/
theorem names_unique {left right : List Bytes} (leftIs : ∀ name ∈ left, name.IsUtf8)
    (rightIs : ∀ name ∈ right, name.IsUtf8)
    (same : list (left.map bytes) = list (right.map bytes)) : left = right :=
  list_unique (fun name member => (leftIs name member).toldApart) rightIs same

theorem optionalBytes_unique {left right : Option Bytes} (leftIs : ∀ name ∈ left, name.IsUtf8)
    (rightIs : ∀ name ∈ right, name.IsUtf8)
    (same : optionalBytes left = optionalBytes right) : left = right :=
  optional_unique (fun name member => (leftIs name member).toldApart) rightIs bytes_ne_none same

theorem KeyframeStop.IsUtf8.toldApart {stop : KeyframeStop} (is : stop.IsUtf8) :
    ToldApart KeyframeStop.outline KeyframeStop.IsUtf8 stop := by
  intro other otherIs same
  obtain ⟨stops, declared⟩ := stop
  obtain ⟨otherStops, otherDeclared⟩ := other
  simp only [KeyframeStop.outline, node_inj, fields_inj, true_and, and_true] at same
  obtain rfl : stops = otherStops := names_unique is.stops otherIs.stops same.1
  obtain rfl : declared = otherDeclared :=
    list_unique (fun declaration member => (is.declarations declaration member).toldApart)
      otherIs.declarations same.2
  rfl

theorem FeatureBlock.IsUtf8.toldApart {block : FeatureBlock} (is : block.IsUtf8) :
    ToldApart FeatureBlock.outline FeatureBlock.IsUtf8 block := by
  intro other otherIs same
  obtain ⟨name, declared⟩ := block
  obtain ⟨otherName, otherDeclared⟩ := other
  simp only [FeatureBlock.outline, node_inj, fields_inj, true_and] at same
  obtain rfl : name = otherName := bytes_unique is.name otherIs.name same.1
  obtain rfl : declared = otherDeclared :=
    declarations_unique is.declarations otherIs.declarations same.2
  rfl

theorem Value.outline_ne_none (value : Value) : value.outline ≠ Outline.none := by
  intro same
  cases value with
  | basic _ => exact absurd (congrArg String.toList (leaf.inj same)) (by simp)
  | string _ => exact absurd (congrArg String.toList (leaf.inj same)) (by simp)
  | function _ _ => exact Outline.noConfusion same

theorem SupportsCondition.outline_ne_none (condition : SupportsCondition) :
    condition.outline ≠ Outline.none := by
  intro same
  cases condition with
  | operator _ => exact absurd (congrArg String.toList (leaf.inj same)) (by simp)
  | _ => exact Outline.noConfusion same

theorem ProfileName.fields_unique {left right : ProfileName} {rest others : List Outline}
    (leftIs : left.IsUtf8) (rightIs : right.IsUtf8)
    (same : left.fields ++ rest = right.fields ++ others) : left = right ∧ rest = others := by
  cases left with
  | deviceCmyk =>
    cases right with
    | deviceCmyk => exact ⟨rfl, List.append_cancel_left same⟩
    | dashed _ =>
      have flags := (labelled.inj (List.cons.inj same).1).2
      exact absurd (flag_injective flags) (by decide)
  | dashed name =>
    cases right with
    | deviceCmyk =>
      have flags := (labelled.inj (List.cons.inj same).1).2
      exact absurd (flag_injective flags) (by decide)
    | dashed other =>
      obtain ⟨names, behind⟩ := List.cons.inj (List.cons.inj same).2
      rw [bytes_unique leftIs rightIs (labelled.inj names).2]
      exact ⟨rfl, behind⟩

/-- All kinds of node, to find one by its name. -/
def NodeKind.all : List NodeKind :=
  [stylesheet, comment, ruleSet, declaration, media, keyframes, keyframeStop, importRule, charset,
    fontFace, fontFeatureValues, featureBlock, colorProfile, counterStyle, container, supports,
    layer, page, namespaceRule, viewport]

theorem NodeKind.find_name (kind : NodeKind) :
    NodeKind.all.find? (fun other => other.name == kind.name) = some kind := by
  cases kind <;> decide

theorem NodeKind.name_injective {left right : NodeKind} (same : left.name = right.name) :
    left = right := by
  have found := left.find_name
  rw [same, right.find_name] at found
  exact (Option.some.inj found).symm

/-- Each node but a comment is opened by the name of its kind. -/
theorem Node.outline_cases (node : Node) :
    (∃ text, node = .comment text) ∨ ∃ fields, node.outline = .node node.kind fields := by
  cases node with
  | comment text => exact .inl ⟨text, rfl⟩
  | _ => exact .inr ⟨_, rfl⟩

theorem Node.kind_of_outline {left right : Node} (same : left.outline = right.outline) :
    left.kind = right.kind := by
  rcases left.outline_cases with ⟨text, rfl⟩ | ⟨fields, isLeft⟩
  · rcases right.outline_cases with ⟨other, rfl⟩ | ⟨others, isRight⟩
    · rfl
    · exact Outline.noConfusion (same.trans isRight)
  · rcases right.outline_cases with ⟨other, rfl⟩ | ⟨others, isRight⟩
    · exact Outline.noConfusion (isLeft.symm.trans same)
    · exact NodeKind.name_injective (node_inj.1 (isLeft.symm.trans (same.trans isRight))).1

theorem Node.outlines_eq (nodes : List Node) : Node.outlines nodes = nodes.map Node.outline := by
  induction nodes with
  | nil => rfl
  | cons first rest ih => exact congrArg (first.outline :: ·) ih

/-- The rules of two nodes, as they are listed. -/
theorem Node.rules_unique {left right : List Node}
    (each : ∀ rule ∈ left, ToldApart Node.outline Node.IsUtf8 rule)
    (rightIs : ∀ rule ∈ right, rule.IsUtf8)
    (same : list (Node.outlines left) = list (Node.outlines right)) : left = right := by
  rw [Node.outlines_eq, Node.outlines_eq] at same
  exact list_unique each rightIs same

theorem Node.IsUtf8.toldApart {node : Node} (is : node.IsUtf8) :
    ToldApart Node.outline Node.IsUtf8 node := by
  -- Nodes of two kinds differ in their first line, so only nodes of one kind are compared.
  induction is with
  | comment content =>
    intro other otherIs same
    have kinds := Node.kind_of_outline same
    cases otherIs with
    | comment otherContent => rw [quoted_unique content otherContent same]
    | _ => exact NodeKind.noConfusion kinds
  | ruleSet atoms _ inner =>
    intro other otherIs same
    have kinds := Node.kind_of_outline same
    cases otherIs with
    | ruleSet otherAtoms otherInner =>
      simp only [Node.outline, node_inj, fields_inj, true_and, and_true] at same
      have selectors := list_unique (fun atom member => SelectorAtom.toldApart (atoms atom member))
        otherAtoms same.1
      rw [selectors, Node.rules_unique inner otherInner same.2]
    | _ => exact NodeKind.noConfusion kinds
  | declaration content =>
    intro other otherIs same
    have kinds := Node.kind_of_outline same
    cases otherIs with
    | declaration otherContent => rw [content.toldApart _ otherContent same]
    | _ => exact NodeKind.noConfusion kinds
  | media queried _ inner =>
    intro other otherIs same
    have kinds := Node.kind_of_outline same
    cases otherIs with
    | media otherQueried otherInner =>
      simp only [Node.outline, node_inj, fields_inj, true_and, and_true] at same
      rw [queried.toldApart _ otherQueried same.1, Node.rules_unique inner otherInner same.2]
    | _ => exact NodeKind.noConfusion kinds
  | keyframes named stopped =>
    intro other otherIs same
    have kinds := Node.kind_of_outline same
    cases otherIs with
    | keyframes otherNamed otherStopped =>
      simp only [Node.outline, node_inj, fields_inj, true_and, and_true] at same
      have stops := list_unique (fun stop member => (stopped stop member).toldApart) otherStopped
        same.2.2
      rw [bytes_unique named otherNamed same.1, flag_injective same.2.1, stops]
    | _ => exact NodeKind.noConfusion kinds
  | importRule address layered supported queried =>
    intro other otherIs same
    have kinds := Node.kind_of_outline same
    cases otherIs with
    | importRule otherAddress otherLayered otherSupported otherQueried =>
      simp only [Node.outline, node_inj, fields_inj, true_and, and_true] at same
      obtain ⟨urls, layers, conditions, queries⟩ := same
      have layer := optional_unique (fun value member => (layered value member).toldApart)
        otherLayered Value.outline_ne_none layers
      have condition := optional_unique (fun value member => (supported value member).toldApart)
        otherSupported SupportsCondition.outline_ne_none conditions
      have query := optional_unique (fun value member => (queried value member).toldApart)
        otherQueried (fun _ => Outline.noConfusion) queries
      rw [address.toldApart _ otherAddress urls, layer, condition, query]
    | _ => exact NodeKind.noConfusion kinds
  | charset named =>
    intro other otherIs same
    have kinds := Node.kind_of_outline same
    cases otherIs with
    | charset otherNamed =>
      simp only [Node.outline, node_inj, fields_inj, true_and, and_true] at same
      rw [bytes_unique named otherNamed same]
    | _ => exact NodeKind.noConfusion kinds
  | fontFace declared =>
    intro other otherIs same
    have kinds := Node.kind_of_outline same
    cases otherIs with
    | fontFace otherDeclared =>
      simp only [Node.outline, node_inj, true_and] at same
      rw [declarations_unique declared otherDeclared same]
    | _ => exact NodeKind.noConfusion kinds
  | fontFeatureValues named blocks =>
    intro other otherIs same
    have kinds := Node.kind_of_outline same
    cases otherIs with
    | fontFeatureValues otherNamed otherBlocks =>
      simp only [Node.outline, node_inj, fields_inj, true_and, and_true] at same
      have listed := list_unique (fun block member => (blocks block member).toldApart) otherBlocks
        same.2
      rw [names_unique named otherNamed same.1, listed]
    | _ => exact NodeKind.noConfusion kinds
  | colorProfile named declared =>
    intro other otherIs same
    have kinds := Node.kind_of_outline same
    cases otherIs with
    | colorProfile otherNamed otherDeclared =>
      simp only [Node.outline, node_inj, true_and] at same
      obtain ⟨profiles, behind⟩ := ProfileName.fields_unique named otherNamed same
      rw [profiles, declarations_unique declared otherDeclared behind]
    | _ => exact NodeKind.noConfusion kinds
  | counterStyle named declared =>
    intro other otherIs same
    have kinds := Node.kind_of_outline same
    cases otherIs with
    | counterStyle otherNamed otherDeclared =>
      simp only [Node.outline, node_inj, fields_inj, true_and] at same
      rw [bytes_unique named otherNamed same.1, declarations_unique declared otherDeclared same.2]
    | _ => exact NodeKind.noConfusion kinds
  | container named queried _ inner =>
    intro other otherIs same
    have kinds := Node.kind_of_outline same
    cases otherIs with
    | container otherNamed otherQueried otherInner =>
      simp only [Node.outline, node_inj, fields_inj, true_and, and_true] at same
      obtain ⟨labels, queries, rules⟩ := same
      have query := list_unique (fun condition member => (queried condition member).toldApart)
        otherQueried queries
      rw [optionalBytes_unique named otherNamed labels, query,
        Node.rules_unique inner otherInner rules]
    | _ => exact NodeKind.noConfusion kinds
  | supports supported _ inner =>
    intro other otherIs same
    have kinds := Node.kind_of_outline same
    cases otherIs with
    | supports otherSupported otherInner =>
      simp only [Node.outline, node_inj, fields_inj, true_and, and_true] at same
      rw [supported.toldApart _ otherSupported same.1, Node.rules_unique inner otherInner same.2]
    | _ => exact NodeKind.noConfusion kinds
  | layerStatement named =>
    intro other otherIs same
    have kinds := Node.kind_of_outline same
    cases otherIs with
    | layerStatement otherNamed =>
      simp only [Node.outline, node_inj, fields_inj, true_and, and_true] at same
      rw [names_unique named otherNamed same]
    | layerBlock _ _ =>
      simp only [Node.outline, node_inj, fields_inj, true_and, and_true] at same
      exact absurd same.2.symm (list_ne_none _)
    | _ => exact NodeKind.noConfusion kinds
  | layerBlock named _ inner =>
    intro other otherIs same
    have kinds := Node.kind_of_outline same
    cases otherIs with
    | layerStatement _ =>
      simp only [Node.outline, node_inj, fields_inj, true_and, and_true] at same
      exact absurd same.2 (list_ne_none _)
    | layerBlock otherNamed otherInner =>
      simp only [Node.outline, node_inj, fields_inj, true_and, and_true] at same
      rw [names_unique named otherNamed same.1, Node.rules_unique inner otherInner same.2]
    | _ => exact NodeKind.noConfusion kinds
  | page selected declared =>
    intro other otherIs same
    have kinds := Node.kind_of_outline same
    cases otherIs with
    | page otherSelected otherDeclared =>
      simp only [Node.outline, node_inj, fields_inj, true_and] at same
      rw [optionalBytes_unique selected otherSelected same.1,
        declarations_unique declared otherDeclared same.2]
    | _ => exact NodeKind.noConfusion kinds
  | namespaceRule named address =>
    intro other otherIs same
    have kinds := Node.kind_of_outline same
    cases otherIs with
    | namespaceRule otherNamed otherAddress =>
      simp only [Node.outline, node_inj, fields_inj, true_and, and_true] at same
      rw [optionalBytes_unique named otherNamed same.1,
        address.toldApart _ otherAddress same.2]
    | _ => exact NodeKind.noConfusion kinds
  | viewport named declared =>
    intro other otherIs same
    have kinds := Node.kind_of_outline same
    cases otherIs with
    | viewport otherNamed otherDeclared =>
      simp only [Node.outline, node_inj, fields_inj, true_and] at same
      rw [bytes_unique named otherNamed same.1, declarations_unique declared otherDeclared same.2]
    | _ => exact NodeKind.noConfusion kinds

end Nodes

end CssSyntax

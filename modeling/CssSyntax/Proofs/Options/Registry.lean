import CssSyntax.Proofs.Options.Item
import Mathlib.Data.List.Nodup

/-! What a name stands for under options: nothing if it is disabled, else the target of the last
alias that has a built-in one, else what it stands for by itself. The case of letters never
counts. -/

namespace CssSyntax

/-- Where at most one item passes a test, it is the one that is found. -/
theorem find?_eq_some_of_unique {α : Type} {items : List α} {test : α → Bool} {item : α}
    (unique : ∀ left ∈ items, ∀ right ∈ items, test left = true → test right = true →
      left = right) :
    items.find? test = some item ↔ item ∈ items ∧ test item = true := by
  constructor
  · exact fun found => ⟨List.mem_of_find?_eq_some found, List.find?_some found⟩
  · rintro ⟨member, passes⟩
    obtain ⟨other, found⟩ := Option.isSome_iff_exists.1 (List.find?_isSome.2 ⟨item, member, passes⟩)
    have same := unique other (List.mem_of_find?_eq_some found) item member
      (List.find?_some found) passes
    rw [found, same]

/-- From behind, the first entry that passes a test is the last of them in the order of keys. -/
theorem Dictionary.find?_reverse {α : Type} {entries : List (String × α)}
    {test : String × α → Bool} {entry : String × α} (ordered : entries.Pairwise before) :
    entries.reverse.find? test = some entry ↔
      entry ∈ entries ∧ test entry = true ∧
        ∀ other ∈ entries, test other = true → other = entry ∨ before other entry := by
  have last {entry : String × α} (found : entries.reverse.find? test = some entry) :
      ∀ other ∈ entries, test other = true → other = entry ∨ before other entry := by
    obtain ⟨-, behind, front, split, fail⟩ := List.find?_eq_some_iff_append.1 found
    have whole : entries = front.reverse ++ entry :: behind.reverse := by
      rw [← List.reverse_reverse entries, split]
      simp
    intro other member passes
    rw [whole] at member ordered
    rcases List.mem_append.1 member with earlier | later
    · exact .inr ((List.pairwise_append.1 ordered).2.2 other earlier entry List.mem_cons_self)
    · rcases List.mem_cons.1 later with same | later
      · exact .inl same
      · have fails := fail other (List.mem_reverse.1 later)
        rw [passes] at fails
        exact absurd fails (by decide)
  constructor
  · intro found
    exact ⟨List.mem_reverse.1 (List.mem_of_find?_eq_some found), List.find?_some found, last found⟩
  · rintro ⟨member, passes, others⟩
    obtain ⟨found, is⟩ := Option.isSome_iff_exists.1
      (List.find?_isSome.2 ⟨entry, List.mem_reverse.2 member, passes⟩)
    have among := List.mem_reverse.1 (List.mem_of_find?_eq_some is)
    rcases others found among (List.find?_some is) with same | before
    · rw [is, same]
    · rcases last is entry member passes with same | after
      · rw [is, same]
      · exact absurd rfl (ne_of_order (order_trans before after))

namespace AtRule

/-- `name` is a built-in name of `rule`, in any case of its letters. -/
def IsBuiltin (name : Bytes) (rule : AtRule) : Prop :=
  ∃ spelling, (spelling, rule) ∈ builtins ∧ Bytes.sameIgnoringCase (utf8 spelling) name = true

/-- No two built-in names differ in the case of their letters only. -/
theorem builtins_distinct : (builtins.map fun entry => Bytes.lower (utf8 entry.1)).Nodup := by
  decide

theorem builtins_unique (name : Bytes) :
    ∀ left ∈ builtins, ∀ right ∈ builtins, Bytes.sameIgnoringCase (utf8 left.1) name = true →
      Bytes.sameIgnoringCase (utf8 right.1) name = true → left = right :=
  fun _ first _ second same other => List.inj_on_of_nodup_map builtins_distinct first second
    ((eq_of_beq same).trans (eq_of_beq other).symm)

theorem ofBuiltin?_eq_some {name : Bytes} {rule : AtRule} :
    ofBuiltin? name = some rule ↔ IsBuiltin name rule := by
  unfold ofBuiltin?
  rw [Option.map_eq_some_iff]
  simp only [find?_eq_some_of_unique (builtins_unique name)]
  constructor
  · rintro ⟨⟨spelling, rule⟩, ⟨member, same⟩, rfl⟩
    exact ⟨spelling, member, same⟩
  · rintro ⟨spelling, member, same⟩
    exact ⟨(spelling, rule), ⟨member, same⟩, rfl⟩

end AtRule

namespace Registry

theorem lookup_filter (entries : List (Bytes × AtRule)) (key name : Bytes) :
    (entries.filter fun entry => entry.1 != key).lookup name =
      if key == name then none else entries.lookup name := by
  induction entries with
  | nil => simp
  | cons entry rest ih =>
    by_cases dropped : entry.1 = key
    · rw [List.filter_cons_of_neg (by simp [dropped]), ih, List.lookup_cons, dropped, BEq.comm]
      cases name == key <;> rfl
    · rw [List.filter_cons_of_pos (by simpa using dropped), List.lookup_cons, List.lookup_cons, ih]
      cases same : name == entry.1 with
      | false => rfl
      | true =>
        have apart : (key == name) = false := by
          rw [eq_of_beq same]
          exact beq_false_of_ne (Ne.symm dropped)
        rw [apart]
        rfl

theorem lookup_erase (registry : Registry) (erased name : Bytes) :
    (registry.erase erased).lookup name =
      if Bytes.sameIgnoringCase erased name then none else registry.lookup name :=
  lookup_filter registry.entries _ _

theorem lookup_insert (registry : Registry) (key name : Bytes) (rule : AtRule) :
    (registry.insert key rule).lookup name =
      if Bytes.sameIgnoringCase key name then some rule else registry.lookup name := by
  have erased := lookup_erase registry key name
  unfold lookup insert at *
  rw [List.lookup_cons, erased, BEq.comm]
  change (match Bytes.sameIgnoringCase key name with | true => _ | false => _) = _
  cases Bytes.sameIgnoringCase key name <;> rfl

/-- The names that are taken out stand for nothing, the others for what they stood for. -/
theorem lookup_eraseAll (names : List String) (registry : Registry) (name : Bytes) :
    (names.foldl (fun registry name => registry.erase (utf8 name)) registry).lookup name =
      if names.any fun other => Bytes.sameIgnoringCase (utf8 other) name then none
      else registry.lookup name := by
  induction names generalizing registry with
  | nil => rfl
  | cons other rest ih =>
    rw [List.foldl_cons, ih, lookup_erase, List.any_cons]
    cases Bytes.sameIgnoringCase (utf8 other) name <;> simp

/-- A name stands for what was put last under it, or for what it stood for before. -/
theorem lookup_insertAll (entries : List (Bytes × AtRule)) (registry : Registry) (name : Bytes) :
    (entries.foldl (fun registry entry => registry.insert entry.1 entry.2) registry).lookup name =
      ((entries.reverse.find? fun entry => Bytes.sameIgnoringCase entry.1 name).map (·.2)).or
        (registry.lookup name) := by
  induction entries generalizing registry with
  | nil => rfl
  | cons entry rest ih =>
    rw [List.foldl_cons, ih, lookup_insert, List.reverse_cons, List.find?_append,
      List.find?_singleton]
    cases rest.reverse.find? fun entry => Bytes.sameIgnoringCase entry.1 name with
    | some later => rfl
    | none => cases Bytes.sameIgnoringCase entry.1 name <;> rfl

/-- Built-in names are put in from the first to the last, and looked for from the first on. That
makes no difference, since no two of them are the same. -/
theorem lookup_builtin (name : Bytes) : builtin.lookup name = AtRule.ofBuiltin? name := by
  have inserted : builtin = (AtRule.builtins.map fun entry => (utf8 entry.1, entry.2)).foldl
      (fun registry entry => registry.insert entry.1 entry.2) empty := by
    rw [List.foldl_map]
    rfl
  have fromBehind : (AtRule.builtins.reverse.find? fun entry =>
      Bytes.sameIgnoringCase (utf8 entry.1) name) =
        AtRule.builtins.find? fun entry => Bytes.sameIgnoringCase (utf8 entry.1) name := by
    have unique := AtRule.builtins_unique name
    refine Option.ext fun entry => ?_
    rw [find?_eq_some_of_unique unique, find?_eq_some_of_unique, List.mem_reverse]
    simpa only [List.mem_reverse] using unique
  have nothing : empty.lookup name = none := rfl
  rw [inserted, lookup_insertAll, ← List.map_reverse, List.find?_map, Option.map_map, nothing,
    Option.or_none]
  exact congrArg (Option.map (·.2)) fromBehind

end Registry

namespace Options

/-- An alias of `name` with a built-in target. -/
def IsAlias (name : Bytes) (entry : String × String) : Prop :=
  Bytes.sameIgnoringCase (utf8 entry.1) name = true ∧ ∃ rule, AtRule.IsBuiltin (utf8 entry.2) rule

/-- `name` is one of the disabled names. -/
def Disables (options : Options) (name : Bytes) : Prop :=
  ∃ other ∈ options.disabled, Bytes.sameIgnoringCase (utf8 other) name = true

/-- What a name stands for. Of its aliases the last one counts, in the order of their bytes. -/
inductive StandsFor (options : Options) (name : Bytes) : Option AtRule → Prop
  | disabled (disabled : options.Disables name) : StandsFor options name none
  | aliased {entry : String × String} {rule : AtRule} (enabled : ¬options.Disables name)
      (member : entry ∈ options.aliases.entries) (names : IsAlias name entry)
      (last : ∀ other ∈ options.aliases.entries, IsAlias name other →
        other = entry ∨ Dictionary.before other entry)
      (target : AtRule.IsBuiltin (utf8 entry.2) rule) : StandsFor options name (some rule)
  | builtin {rule : AtRule} (enabled : ¬options.Disables name)
      (unaliased : ∀ entry ∈ options.aliases.entries, ¬IsAlias name entry)
      (is : AtRule.IsBuiltin name rule) : StandsFor options name (some rule)
  | unknown (enabled : ¬options.Disables name)
      (unaliased : ∀ entry ∈ options.aliases.entries, ¬IsAlias name entry)
      (foreign : ¬∃ rule, AtRule.IsBuiltin name rule) : StandsFor options name none

section Lookup

variable {options : Options} {name : Bytes}

/-- What an alias puts into the registry. -/
def putBy (entry : String × String) : Option (Bytes × AtRule) :=
  (aliasTarget? entry.2).map fun rule => (utf8 entry.1, rule)

def aliases? (name : Bytes) (entry : String × String) : Bool :=
  (putBy entry).any fun put => Bytes.sameIgnoringCase put.1 name

theorem aliases?_iff {entry : String × String} :
    aliases? name entry = true ↔ IsAlias name entry := by
  unfold aliases? putBy IsAlias aliasTarget?
  simp only [Option.any_map, Option.any_eq_true, AtRule.ofBuiltin?_eq_some, exists_and_right]
  exact and_comm

theorem lookup_registry (options : Options) (name : Bytes) :
    options.registry.lookup name =
      if options.disabled.any fun other => Bytes.sameIgnoringCase (utf8 other) name then none
      else ((options.aliases.entries.reverse.find? (aliases? name)).bind fun entry =>
        aliasTarget? entry.2).or (AtRule.ofBuiltin? name) := by
  have inserted : options.aliases.entries.foldl addAlias .builtin =
      (options.aliases.entries.filterMap putBy).foldl
        (fun registry entry => registry.insert entry.1 entry.2) .builtin := by
    rw [List.foldl_filterMap]
    congr 1
    funext registry entry
    unfold addAlias putBy
    cases aliasTarget? entry.2 <;> rfl
  unfold registry
  rw [Registry.lookup_eraseAll, inserted, Registry.lookup_insertAll, ← List.filterMap_reverse,
    List.find?_filterMap, Registry.lookup_builtin, Option.map_bind]
  have target (entry : String × String) : (putBy entry).map (·.2) = aliasTarget? entry.2 := by
    unfold putBy
    cases aliasTarget? entry.2 <;> rfl
  simp only [Function.comp_def, target]
  rfl

theorem any_disabled_iff :
    (options.disabled.any fun other => Bytes.sameIgnoringCase (utf8 other) name) = true ↔
      options.Disables name :=
  List.any_eq_true

theorem lookup_of_enabled (enabled : ¬options.Disables name) :
    options.registry.lookup name =
      ((options.aliases.entries.reverse.find? (aliases? name)).bind fun entry =>
        aliasTarget? entry.2).or (AtRule.ofBuiltin? name) := by
  rw [lookup_registry, if_neg (mt any_disabled_iff.1 enabled)]

theorem lookup_of_unaliased (enabled : ¬options.Disables name)
    (unaliased : ∀ entry ∈ options.aliases.entries, ¬IsAlias name entry) :
    options.registry.lookup name = AtRule.ofBuiltin? name := by
  have none : options.aliases.entries.reverse.find? (aliases? name) = none := by
    refine List.find?_eq_none.2 fun entry member => ?_
    exact mt aliases?_iff.1 (unaliased entry (List.mem_reverse.1 member))
  rw [lookup_of_enabled enabled, none]
  rfl

theorem standsFor_lookup (options : Options) (name : Bytes) :
    options.StandsFor name (options.registry.lookup name) := by
  by_cases disabled : options.Disables name
  · rw [lookup_registry, if_pos (any_disabled_iff.2 disabled)]
    exact .disabled disabled
  · cases last : options.aliases.entries.reverse.find? (aliases? name) with
    | some entry =>
      obtain ⟨member, names, others⟩ := (Dictionary.find?_reverse options.aliases.ordered).1 last
      obtain ⟨same, rule, target⟩ := aliases?_iff.1 names
      have is : aliasTarget? entry.2 = some rule := AtRule.ofBuiltin?_eq_some.2 target
      rw [lookup_of_enabled disabled, last, Option.bind_some, is, Option.some_or]
      exact .aliased disabled member ⟨same, rule, target⟩
        (fun other among is => others other among (aliases?_iff.2 is)) target
    | none =>
      have unaliased : ∀ entry ∈ options.aliases.entries, ¬IsAlias name entry :=
        fun entry member is => List.find?_eq_none.1 last entry (List.mem_reverse.2 member)
          (aliases?_iff.2 is)
      rw [lookup_of_unaliased disabled unaliased]
      cases is : AtRule.ofBuiltin? name with
      | some rule => exact .builtin disabled unaliased (AtRule.ofBuiltin?_eq_some.1 is)
      | none =>
        refine .unknown disabled unaliased fun ⟨rule, builtin⟩ => ?_
        exact nomatch is.symm.trans (AtRule.ofBuiltin?_eq_some.2 builtin)

/-- A name stands for one thing at most. -/
theorem StandsFor.lookup_eq {found : Option AtRule} (stands : options.StandsFor name found) :
    options.registry.lookup name = found := by
  cases stands with
  | disabled disabled => rw [lookup_registry, if_pos (any_disabled_iff.2 disabled)]
  | @aliased entry rule enabled member names last target =>
    have found : options.aliases.entries.reverse.find? (aliases? name) = some entry :=
      (Dictionary.find?_reverse options.aliases.ordered).2 ⟨member, aliases?_iff.2 names,
        fun other among is => last other among (aliases?_iff.1 is)⟩
    have is : aliasTarget? entry.2 = some rule := AtRule.ofBuiltin?_eq_some.2 target
    rw [lookup_of_enabled enabled, found, Option.bind_some, is, Option.some_or]
  | builtin enabled unaliased is =>
    rw [lookup_of_unaliased enabled unaliased]
    exact AtRule.ofBuiltin?_eq_some.2 is
  | unknown enabled unaliased foreign =>
    rw [lookup_of_unaliased enabled unaliased, Option.eq_none_iff_forall_ne_some]
    exact fun rule is => foreign ⟨rule, AtRule.ofBuiltin?_eq_some.1 is⟩

/-- The registry gives each name what it stands for under the options. -/
theorem registry_lookup (options : Options) (name : Bytes) (found : Option AtRule) :
    options.registry.lookup name = found ↔ options.StandsFor name found :=
  ⟨fun is => is ▸ standsFor_lookup options name, StandsFor.lookup_eq⟩

/-- Two aliases of one name, the last of them with a target that is no built-in name. -/
example :
    let aliases := Dictionary.ofList [("-X-rule", "media"), ("-x-Rule", "PAGE"), ("-x-rule", "rule")]
    let options : Options := { Options.standard with aliases, disabled := ["Page"] }
    options.registry.lookup (utf8 "-x-RULE") = some .page ∧
      options.registry.lookup (utf8 "page") = none := by
  decide

end Lookup

end Options

end CssSyntax

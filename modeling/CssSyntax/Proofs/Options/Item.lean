import CssSyntax.Options.Document
import CssSyntax.Proofs.Text.Encoding
import Mathlib.Data.List.Induction

/-! What an update says of each option. The options are read and written one by one, a document
gives at most one value for each, and an update is accepted exactly if the values that it gives suit
their options and the aliases that come out have targets. -/

namespace CssSyntax

theorem utf8_injective : Function.Injective utf8 := by
  intro left right same
  have texts := congrArg Utf8.decode same
  rw [Utf8.decode_utf8, Utf8.decode_utf8] at texts
  exact String.toList_inj.1 texts

namespace Dictionary

variable {α : Type}

theorem eq_of_order {left right : String} (same : order left right = .eq) : left = right :=
  utf8_injective (Std.LawfulEqCmp.eq_of_compare same)

theorem ne_of_order {left right : String} (less : order left right = .lt) : left ≠ right := by
  rintro rfl
  have same : order left left = .eq := @Std.ReflCmp.compare_self Bytes compare _ (utf8 left)
  exact nomatch less.symm.trans same

theorem lookup_cons_eq (entry : String × α) (rest : List (String × α)) (name : String) :
    (entry :: rest).lookup name = if name = entry.1 then some entry.2 else rest.lookup name := by
  rw [List.lookup_cons]
  split
  next equal => rw [if_pos (eq_of_beq equal)]
  next other => rw [if_neg (ne_of_beq_false other)]

theorem lookup_insertEntry (key : String) (value : α) (entries : List (String × α))
    (name : String) :
    (insertEntry key value entries).lookup name =
      if name = key then some value else entries.lookup name := by
  induction entries with
  | nil => exact lookup_cons_eq _ _ _
  | cons entry rest ih =>
    unfold insertEntry
    split
    next => exact lookup_cons_eq _ _ _
    next equal =>
      rw [lookup_cons_eq, lookup_cons_eq, ← eq_of_order equal]
      split <;> rfl
    next greater =>
      have apart := ne_of_order (order_gt_iff.1 greater)
      rw [lookup_cons_eq, lookup_cons_eq, ih]
      by_cases first : name = entry.1
      · rw [if_pos first, if_neg (first ▸ apart), if_pos first]
      · rw [if_neg first, if_neg first]

/-- Of two entries under one key the later holds. -/
theorem get?_ofList (entries : List (String × α)) (name : String) :
    (ofList entries).get? name = entries.reverse.lookup name := by
  unfold ofList
  induction entries using List.reverseRecOn with
  | nil => rfl
  | append_singleton front entry ih =>
    rw [List.foldl_append, List.reverse_append]
    change (insertEntry entry.1 entry.2 _).lookup name = (entry :: front.reverse).lookup name
    rw [lookup_insertEntry, lookup_cons_eq, ← ih]
    rfl

theorem names_nodup (dictionary : Dictionary α) : (dictionary.entries.map (·.1)).Nodup :=
  List.pairwise_map.2 (dictionary.ordered.imp ne_of_order)

end Dictionary

namespace Json

/-- The members of a document. One that is no object has none. -/
def members : Json → List (String × Json)
  | object members => members
  | _ => []

/-- The value under a name. Of two members of one name the later counts. -/
def member? (document : Json) (name : String) : Option Json :=
  (document.members.reverse.lookup name).map canonical

/-- The members of both documents, those of the second in place of those of the first. -/
def overriddenBy (first second : Json) : Json := .object (first.members ++ second.members)

theorem canonicalMembers_eq (members : List (String × Json)) :
    canonicalMembers members = members.map fun member => (member.1, member.2.canonical) := by
  induction members with
  | nil => rfl
  | cons member rest ih => rw [canonicalMembers, ih, List.map_cons]

theorem lookup_canonical (members : List (String × Json)) (name : String) :
    (members.map fun member => (member.1, member.2.canonical)).lookup name =
      (members.lookup name).map canonical := by
  induction members with
  | nil => rfl
  | cons member rest ih =>
    rw [List.map_cons, Dictionary.lookup_cons_eq, Dictionary.lookup_cons_eq, ih]
    split <;> rfl

/-- Documents are put in order before they are used. That changes no value under a name. -/
theorem canonical_object (members : List (String × Json)) :
    ∃ dictionary : Dictionary Json, (object members).canonical = object dictionary.entries ∧
      ∀ name, dictionary.entries.lookup name = (object members).member? name := by
  refine ⟨.ofList (canonicalMembers members), by rw [canonical], fun name => ?_⟩
  change Dictionary.get? _ name = _
  rw [Dictionary.get?_ofList, canonicalMembers_eq, ← List.map_reverse, lookup_canonical]
  rfl

theorem member?_overriddenBy (first second : Json) (name : String) :
    (first.overriddenBy second).member? name =
      (second.member? name).or (first.member? name) := by
  unfold member? overriddenBy
  change ((first.members ++ second.members).reverse.lookup name).map canonical = _
  rw [List.reverse_append, List.lookup_append]
  cases second.members.reverse.lookup name <;> rfl

end Json

namespace Options

/-- The aliases all have a built-in name as target. -/
def Resolves (options : Options) : Prop :=
  ∀ entry ∈ options.aliases.entries, ∃ rule, aliasTarget? entry.2 = some rule

theorem checked_eq_ok {options found : Options} :
    options.checked = .ok found ↔ found = options ∧ options.Resolves := by
  have none : options.brokenAlias? = none ↔ options.Resolves := by
    unfold brokenAlias? Resolves
    rw [List.find?_eq_none]
    simp [Option.ne_none_iff_exists']
  unfold checked
  split
  next entry broken =>
    have fails : ¬options.Resolves := fun all => nomatch broken.symm.trans (none.2 all)
    simp [fails]
  next whole =>
    simp [none.1 whole, eq_comm]

namespace Item

/-- What an option is. -/
def Value : Item → Type
  | keepComments => Bool
  | maxErrors => Option Nat
  | aliases => Dictionary String
  | disabled => List String

def get : (item : Item) → Options → item.Value
  | keepComments, options => options.keepComments
  | maxErrors, options => options.maxErrors
  | aliases, options => options.aliases
  | disabled, options => options.disabled

def put : (item : Item) → Options → item.Value → Options
  | keepComments, options, value => { options with keepComments := value }
  | maxErrors, options, value => { options with maxErrors := value }
  | aliases, options, value => { options with aliases := value }
  | disabled, options, value => { options with disabled := value }

def decode? : (item : Item) → Json → Option item.Value
  | keepComments => boolOf?
  | maxErrors => limitOf?
  | aliases => dictionaryOf?
  | disabled => stringsOf?

variable {item other : Item} {options before after : Options}

@[simp]
theorem get_put (item : Item) (options : Options) (value : item.Value) :
    item.get (item.put options value) = value := by
  cases item <;> rfl

theorem get_put_of_ne (apart : other ≠ item) (options : Options) (value : item.Value) :
    other.get (item.put options value) = other.get options := by
  cases item <;> cases other <;> first | rfl | exact absurd rfl apart

/-- Options are told apart by one of them. -/
theorem ext (same : ∀ item : Item, item.get before = item.get after) : before = after := by
  have keepComments := same .keepComments
  have maxErrors := same .maxErrors
  have aliases := same .aliases
  have disabled := same .disabled
  cases before
  cases after
  simp_all [get]

theorem set?_eq (options : Options) (value : Json) (item : Item) :
    options.set? value item = (item.decode? value).map (item.put options) := by
  cases item <;> rfl

theorem name_injective (same : item.name = other.name) : item = other := by
  cases item <;> cases other <;> first | rfl | exact absurd same (by decide)

theorem ofName?_eq_some {name : String} : ofName? name = some item ↔ item.name = name := by
  constructor
  · intro found
    have named := List.find?_some found
    exact eq_of_beq named
  · rintro rfl
    cases item <;> rfl

/-- The option keeps its value, or takes the one that a document gives for it. -/
def Updates (item : Item) (before after : Options) : Option Json → Prop
  | none => item.get after = item.get before
  | some value => item.decode? value = some (item.get after)

theorem Updates.congr {first last : Options} {value : Option Json}
    (updates : item.Updates before after value) (start : item.get first = item.get before)
    (finish : item.get last = item.get after) : item.Updates first last value := by
  cases value with
  | none => exact finish.trans (Eq.trans updates start.symm)
  | some value => exact Eq.trans updates (congrArg some finish.symm)

/-- A document and the options before it leave one way to update. -/
theorem Updates.unique {one two : Options} {value : Option Json}
    (first : item.Updates before one value) (second : item.Updates before two value) :
    item.get one = item.get two := by
  cases value with
  | none => exact Eq.trans first (Eq.symm second)
  | some value => exact Option.some.inj (Eq.trans (Eq.symm first) second)

end Item

/-- The first member sets its option, the others theirs. -/
theorem setAll?_cons (options : Options) (member : String × Json) (rest : List (String × Json)) :
    ((member :: rest).mapM itemOf?).bind options.setAll? =
      (Item.ofName? member.1).bind fun item =>
        (options.set? member.2 item).bind fun next => (rest.mapM itemOf?).bind next.setAll? := by
  rw [List.mapM_cons]
  unfold itemOf?
  cases Item.ofName? member.1 with
  | none => rfl
  | some item =>
    change ((rest.mapM itemOf?).bind fun pairs => some ((item, member.2) :: pairs)).bind
      options.setAll? = (options.set? member.2 item).bind fun next =>
        (rest.mapM itemOf?).bind next.setAll?
    cases rest.mapM itemOf? with
    | none => cases options.set? member.2 item <;> rfl
    | some pairs => rfl

/-- Once a member has set its option, the others update what comes out. -/
theorem updates_cons_iff {item : Item} {member : String × Json} {rest : List (String × Json)}
    {options found : Options} {value : item.Value} (named : item.name = member.1)
    (fresh : member.1 ∉ rest.map (·.1)) (decoded : item.decode? member.2 = some value)
    (other : Item) :
    other.Updates options found ((member :: rest).lookup other.name) ↔
      other.Updates (item.put options value) found (rest.lookup other.name) := by
  rw [Dictionary.lookup_cons_eq]
  by_cases same : other = item
  · subst same
    have none : rest.lookup other.name = none := by
      refine List.lookup_eq_none_iff.2 fun entry member => ?_
      refine bne_iff_ne.2 fun is => fresh ?_
      rw [← named, is]
      exact List.mem_map_of_mem member
    rw [if_pos named, none]
    change other.decode? member.2 = _ ↔ other.get found = other.get (other.put options value)
    rw [decoded, Item.get_put, Option.some.injEq, eq_comm]
  · rw [if_neg fun is => same (Item.name_injective (is.trans named.symm))]
    cases rest.lookup other.name with
    | none =>
      change other.get found = other.get options ↔ other.get found = _
      rw [Item.get_put_of_ne same]
    | some value => exact Iff.rfl

/-- Members of different names set the options that they name, and no others. -/
theorem setAll?_eq_some {members : List (String × Json)} {options found : Options}
    (distinct : (members.map (·.1)).Nodup) :
    (members.mapM itemOf?).bind options.setAll? = some found ↔
      (∀ member ∈ members, ∃ item, Item.name item = member.1) ∧
        ∀ item, Item.Updates item options found (members.lookup item.name) := by
  induction members generalizing options with
  | nil =>
    constructor
    · intro same
      obtain rfl : options = found := Option.some.inj same
      exact ⟨List.forall_mem_nil _, fun item => rfl⟩
    · rintro ⟨-, same⟩
      exact congrArg some (Item.ext fun item => (same item).symm)
  | cons member rest ih =>
    obtain ⟨fresh, distinct⟩ := List.nodup_cons.1 distinct
    rw [setAll?_cons, Option.bind_eq_some_iff]
    constructor
    · rintro ⟨item, is, set⟩
      have named := Item.ofName?_eq_some.1 is
      rw [Item.set?_eq, Option.bind_eq_some_iff] at set
      obtain ⟨next, put, further⟩ := set
      obtain ⟨value, decoded, rfl⟩ := Option.map_eq_some_iff.1 put
      obtain ⟨known, updates⟩ := (ih distinct).1 further
      refine ⟨List.forall_mem_cons.2 ⟨⟨item, named⟩, known⟩, fun other => ?_⟩
      exact (updates_cons_iff named fresh decoded other).2 (updates other)
    · rintro ⟨known, updates⟩
      obtain ⟨⟨item, named⟩, known⟩ := List.forall_mem_cons.1 known
      have decoded : item.decode? member.2 = some (item.get found) := by
        have update := updates item
        rwa [Dictionary.lookup_cons_eq, if_pos named] at update
      refine ⟨item, Item.ofName?_eq_some.2 named, ?_⟩
      rw [Item.set?_eq, decoded]
      refine (ih distinct).2 ⟨known, fun other => ?_⟩
      exact (updates_cons_iff named fresh decoded other).1 (updates other)

/-- What it takes for an update to be accepted, and what comes out. -/
structure Accepts (document : Json) (before after : Options) : Prop where
  isObject : ∃ members, document = .object members
  known : ∀ name, (document.member? name).isSome → ∃ item, Item.name item = name
  updates : ∀ item : Item, item.Updates before after (document.member? item.name)
  resolves : after.Resolves

/-- Nothing but one result is accepted. -/
theorem Accepts.unique {document : Json} {before one two : Options}
    (first : Accepts document before one) (second : Accepts document before two) : one = two :=
  Item.ext fun item => (first.updates item).unique (second.updates item)

theorem unknownItem?_eq_none {members : List (String × Json)} :
    unknownItem? members = none ↔ ∀ member ∈ members, ∃ item, Item.name item = member.1 := by
  unfold unknownItem?
  rw [Option.map_eq_none_iff, List.find?_eq_none]
  refine forall₂_congr fun member _ => ?_
  rw [Bool.not_eq_true, Option.isNone_eq_false_iff, Option.isSome_iff_exists]
  exact exists_congr fun item => Item.ofName?_eq_some

theorem isSome_lookup_iff {members : List (String × Json)} {name : String} :
    (members.lookup name).isSome ↔ ∃ member ∈ members, member.1 = name := by
  rw [Option.isSome_iff_ne_none, ne_eq, List.lookup_eq_none_iff]
  simp only [bne_iff_ne, ne_eq, not_forall, not_not, exists_prop]
  exact exists_congr fun member => and_congr_right fun _ => eq_comm

theorem updateMembers_eq_ok {options found : Options} {members : List (String × Json)}
    (distinct : (members.map (·.1)).Nodup) :
    options.updateMembers members = .ok found ↔
      (∀ member ∈ members, ∃ item, Item.name item = member.1) ∧
        (∀ item : Item, item.Updates options found (members.lookup item.name)) ∧
          found.Resolves := by
  rw [← unknownItem?_eq_none]
  unfold updateMembers
  split
  next name unknown =>
    rw [unknown]
    exact ⟨nofun, nofun⟩
  next known =>
    have set (next : Options) := @setAll?_eq_some members options next distinct
    have named := unknownItem?_eq_none.1 known
    split
    next next is =>
      rw [checked_eq_ok]
      constructor
      · rintro ⟨rfl, resolves⟩
        exact ⟨known, ((set found).1 is).2, resolves⟩
      · rintro ⟨-, updates, resolves⟩
        obtain rfl := Option.some.inj (is.symm.trans ((set found).2 ⟨named, updates⟩))
        exact ⟨rfl, resolves⟩
    next none =>
      refine ⟨nofun, fun ⟨_, updates, _⟩ => ?_⟩
      exact nomatch none.symm.trans ((set found).2 ⟨named, updates⟩)

/-- An update is accepted exactly if it can be, and does what is said of it. -/
theorem update_eq_ok {options found : Options} {document : Json} :
    options.update document = .ok found ↔ Accepts document options found := by
  by_cases object : ∃ members, document = .object members
  · obtain ⟨members, rfl⟩ := object
    obtain ⟨dictionary, canonical, values⟩ := Json.canonical_object members
    unfold update
    rw [canonical]
    change options.updateMembers dictionary.entries = .ok found ↔ _
    rw [updateMembers_eq_ok dictionary.names_nodup]
    have known : (∀ member ∈ dictionary.entries, ∃ item, Item.name item = member.1) ↔
        ∀ name, ((Json.object members).member? name).isSome → ∃ item, Item.name item = name := by
      simp only [← values, isSome_lookup_iff]
      exact ⟨fun all name ⟨member, among, is⟩ => is ▸ all member among,
        fun all member among => all _ ⟨member, among, rfl⟩⟩
    rw [known]
    simp only [values]
    exact ⟨fun ⟨known, updates, resolves⟩ => ⟨⟨members, rfl⟩, known, updates, resolves⟩,
      fun accepts => ⟨accepts.known, accepts.updates, accepts.resolves⟩⟩
  · have refused : options.update document = .error (.notObject document.canonical) := by
      cases document with
      | object members => exact absurd ⟨members, rfl⟩ object
      | _ => rfl
    rw [refused]
    exact ⟨nofun, fun accepts => absurd accepts.isObject object⟩

end Options

end CssSyntax

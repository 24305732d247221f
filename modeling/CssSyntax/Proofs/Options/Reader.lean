import CssSyntax.Proofs.Options.Update
import Mathlib.Data.List.Nodup

/-! The two ways to read options agree. A document that is read as a whole fills a draft, one member
after the other in the order of the text, and what is missing at the end is as it is by default. An
update is put in order before it is used, and the options are then looked up in it one by one. -/

namespace CssSyntax

section Lists

variable {α β : Type}

theorem mapM_eq_some_iff {read : α → Option β} {items : List α} {found : List β} :
    items.mapM read = some found ↔ items.map read = found.map some := by
  induction items generalizing found with
  | nil => cases found <;> simp
  | cons item rest ih =>
    rw [List.mapM_cons]
    cases first : read item with
    | none => cases found <;> simp [first]
    | some value =>
      cases others : rest.mapM read with
      | none =>
        have none (found : List β) : rest.map read ≠ found.map some := fun same =>
          nomatch others.symm.trans (ih.2 same)
        cases found <;> simp [first, none]
      | some values =>
        have all := ih.1 others
        have same (found : List β) : values = found ↔ rest.map read = found.map some := by
          rw [all, List.map_inj_right fun _ _ => Option.some.inj]
        cases found <;> simp [first, same]

/-- Where no key is repeated an entry is found under its key. -/
theorem lookup_eq_some_iff_mem {entries : List (String × α)}
    (distinct : (entries.map (·.1)).Nodup) {key : String} {value : α} :
    entries.lookup key = some value ↔ (key, value) ∈ entries := by
  rw [List.lookup_eq_some_iff]
  constructor
  · rintro ⟨front, back, rfl, -⟩
    exact List.mem_append_right _ List.mem_cons_self
  · intro member
    obtain ⟨front, back, rfl⟩ := List.append_of_mem member
    refine ⟨front, back, rfl, fun entry among => bne_iff_ne.2 fun same => ?_⟩
    rw [List.map_append, List.nodup_append] at distinct
    exact distinct.2.2 entry.1 (List.mem_map_of_mem among) key (List.mem_cons_self) same.symm

theorem lookup_reverse {entries : List (String × α)} (distinct : (entries.map (·.1)).Nodup)
    (key : String) : entries.reverse.lookup key = entries.lookup key := by
  have behind : (entries.reverse.map (·.1)).Nodup := by
    rw [List.map_reverse]
    exact List.nodup_reverse.2 distinct
  refine Option.ext fun value => ?_
  rw [lookup_eq_some_iff_mem behind, lookup_eq_some_iff_mem distinct, List.mem_reverse]

end Lists

namespace Dictionary

variable {α β : Type}

/-- Under a key behind all others an entry becomes the last. -/
theorem insertEntry_last {entries : List (String × α)} {key : String} {value : α}
    (last : ∀ entry ∈ entries, before entry (key, value)) :
    insertEntry key value entries = entries ++ [(key, value)] := by
  induction entries with
  | nil => rfl
  | cons entry rest ih =>
    obtain ⟨first, others⟩ := List.forall_mem_cons.1 last
    have greater : order key entry.1 = .gt := order_gt_iff.2 first
    rw [insertEntry, greater, ih others]
    rfl

theorem ofList_concat (front : List (String × α)) (entry : String × α) :
    ofList (front ++ [entry]) = (ofList front).insert entry.1 entry.2 := by
  unfold ofList
  rw [List.foldl_append]
  rfl

/-- A dictionary is that of its entries. -/
theorem ofList_entries (dictionary : Dictionary α) : ofList dictionary.entries = dictionary := by
  have same (entries : List (String × α)) (ordered : entries.Pairwise before) :
      (ofList entries).entries = entries := by
    induction entries using List.reverseRecOn with
    | nil => rfl
    | append_singleton front entry ih =>
      obtain ⟨inFront, -, last⟩ := List.pairwise_append.1 ordered
      rw [ofList_concat]
      change insertEntry entry.1 entry.2 (ofList front).entries = _
      rw [ih inFront, insertEntry_last fun other member => last other member entry (.head _)]
  obtain ⟨entries, ordered⟩ := dictionary
  have whole := same entries ordered
  cases listed : ofList entries
  rw [listed] at whole
  congr

theorem insertEntry_map (change : α → β) (key : String) (value : α)
    (entries : List (String × α)) :
    insertEntry key (change value) (entries.map fun entry => (entry.1, change entry.2)) =
      (insertEntry key value entries).map fun entry => (entry.1, change entry.2) := by
  induction entries with
  | nil => rfl
  | cons entry rest ih =>
    rw [List.map_cons, insertEntry, insertEntry, ih]
    cases order key entry.1 <;> rfl

theorem ofList_map (change : α → β) (entries : List (String × α)) :
    (ofList (entries.map fun entry => (entry.1, change entry.2))).entries =
      (ofList entries).entries.map fun entry => (entry.1, change entry.2) := by
  induction entries using List.reverseRecOn with
  | nil => rfl
  | append_singleton front entry ih =>
    rw [List.map_append, List.map_singleton, ofList_concat, ofList_concat]
    change insertEntry entry.1 (change entry.2) _ = (insertEntry entry.1 entry.2 _).map _
    rw [ih, insertEntry_map]

end Dictionary

theorem Json.member?_of_distinct {members : List (String × Json)}
    (distinct : (members.map (·.1)).Nodup) (name : String) :
    (object members).member? name = (members.lookup name).map canonical :=
  congrArg (Option.map canonical) (lookup_reverse distinct name)

namespace Options

open InPlace

section Decoding

variable {members : List (String × Json)} {entries : List (String × String)}

theorem entryOf?_eq_some {member : String × Json} {entry : String × String} :
    entryOf? member = some entry ↔ member = (entry.1, .string entry.2) := by
  obtain ⟨name, value⟩ := member
  obtain ⟨key, target⟩ := entry
  cases value <;> simp [entryOf?, stringOf?]

theorem entries_eq_some :
    members.mapM entryOf? = some entries ↔
      members = entries.map fun entry => (entry.1, .string entry.2) := by
  rw [mapM_eq_some_iff]
  induction members generalizing entries with
  | nil => cases entries <;> simp
  | cons member rest ih =>
    cases entries with
    | nil => simp
    | cons entry others => simp only [List.map_cons, List.cons.injEq, entryOf?_eq_some, ih]

theorem isSome_dictionaryOf?_iff :
    (dictionaryOf? (.object members)).isSome = true ↔
      ∀ member ∈ members, ∃ text, member.2 = .string text := by
  change ((members.mapM entryOf?).map Dictionary.ofList).isSome = true ↔ _
  rw [Option.isSome_map, Option.isSome_iff_exists]
  simp only [entries_eq_some]
  constructor
  · rintro ⟨entries, rfl⟩ member among
    obtain ⟨entry, -, rfl⟩ := List.mem_map.1 among
    exact ⟨entry.2, rfl⟩
  · intro strings
    induction members with
    | nil => exact ⟨[], rfl⟩
    | cons member rest ih =>
      obtain ⟨⟨text, is⟩, others⟩ := List.forall_mem_cons.1 strings
      obtain ⟨entries, rfl⟩ := ih others
      exact ⟨(member.1, text) :: entries, by rw [List.map_cons, ← is]⟩

/-- A dictionary that is accepted as it stands is accepted with its members in order, and is the
same. -/
theorem dictionaryOf?_canonical {value : Json} {found : Dictionary String}
    (accepted : dictionaryOf? value = some found) : dictionaryOf? value.canonical = some found := by
  cases value with
  | object members =>
    obtain ⟨entries, read, rfl⟩ := Option.map_eq_some_iff.1 accepted
    rw [entries_eq_some] at read
    have strings : Json.canonicalMembers members =
        entries.map fun entry => (entry.1, Json.string entry.2) := by
      rw [Json.canonicalMembers_eq, read, List.map_map]
      rfl
    have ordered : (Dictionary.ofList (Json.canonicalMembers members)).entries.mapM entryOf? =
        some (Dictionary.ofList entries).entries := by
      rw [strings, Dictionary.ofList_map, entries_eq_some]
    rw [Json.canonical]
    change ((Dictionary.ofList _).entries.mapM entryOf?).map Dictionary.ofList = _
    rw [ordered, Option.map_some, Dictionary.ofList_entries]
  | _ => exact absurd accepted (Option.some_ne_none found).symm

theorem string_of_canonical {value : Json} {text : String} (is : value.canonical = .string text) :
    value = .string text := by
  cases value with
  | string other => exact is
  | _ => exact nomatch is

/-- Where no key is repeated, a dictionary that is accepted in order is accepted as it stands. -/
theorem isSome_of_canonical (distinct : (members.map (·.1)).Nodup)
    (accepted : (dictionaryOf? (Json.object members).canonical).isSome = true) :
    (dictionaryOf? (.object members)).isSome = true := by
  obtain ⟨dictionary, canonical, values⟩ := Json.canonical_object members
  rw [canonical, isSome_dictionaryOf?_iff] at accepted
  rw [isSome_dictionaryOf?_iff]
  rintro ⟨name, value⟩ member
  have inOrder : dictionary.entries.lookup name = some value.canonical := by
    rw [values, Json.member?_of_distinct distinct, (lookup_eq_some_iff_mem distinct).2 member]
    rfl
  obtain ⟨text, is⟩ := accepted (name, value.canonical)
    ((lookup_eq_some_iff_mem dictionary.names_nodup).1 inOrder)
  exact ⟨text, string_of_canonical is⟩

end Decoding

namespace Item

variable {item : Item} {value : Json}

/-- A value is accepted for an option as it stands in a text, or it is not accepted as it is in a
document that has been put in order. -/
def DecodesAlike (item : Item) (value : Json) : Prop :=
  (item.decode? value).isSome = (item.decode? value.canonical).isSome

theorem stringsOf?_canonical (value : Json) : stringsOf? value.canonical = stringsOf? value := by
  cases value with
  | array items =>
    have listed : Json.canonicalItems items = items.map Json.canonical := by
      induction items with
      | nil => rfl
      | cons item rest ih => rw [Json.canonicalItems, ih, List.map_cons]
    have each : stringOf? ∘ Json.canonical = stringOf? := by
      funext item
      cases item <;> rfl
    rw [Json.canonical, listed]
    change (items.map Json.canonical).mapM stringOf? = items.mapM stringOf?
    rw [List.mapM_map, each]
  | _ => rfl

/-- Only dictionaries are not the same before they are put in order. -/
theorem decode?_canonical (other : item ≠ .aliases) (value : Json) :
    item.decode? value.canonical = item.decode? value := by
  cases item with
  | keepComments => cases value <;> rfl
  | maxErrors => cases value <;> rfl
  | aliases => exact absurd rfl other
  | disabled => exact stringsOf?_canonical value

theorem DecodesAlike.decode?_eq (alike : item.DecodesAlike value) :
    item.decode? value.canonical = item.decode? value := by
  by_cases other : item = .aliases
  · subst other
    cases accepted : decode? .aliases value with
    | some found => exact dictionaryOf?_canonical accepted
    | none =>
      unfold DecodesAlike at alike
      rw [accepted] at alike
      exact Option.isNone_iff_eq_none.1 (by simpa using alike.symm)
  · exact decode?_canonical other value

end Item

/-- Options that are being read: the values that have been found so far. -/
@[ext]
structure Draft where
  found? : (item : Item) → Option item.Value

namespace Draft

def blank : Draft := ⟨fun _ => none⟩

def set (draft : Draft) (item : Item) (value : item.Value) : Draft :=
  ⟨Function.update draft.found? item (some value)⟩

/-- Takes in a member. A name is refused if no option has it, or if it has been there before. -/
def take? (draft : Draft) (member : String × Json) : Option Draft :=
  (Item.ofName? member.1).bind fun item =>
    match draft.found? item with
    | some _ => none
    | none => (item.decode? member.2).map (draft.set item)

/-- What is missing is as it is by default. -/
def whole (draft : Draft) : Options where
  keepComments := (draft.found? .keepComments).getD standard.keepComments
  maxErrors := (draft.found? .maxErrors).getD standard.maxErrors
  aliases := (draft.found? .aliases).getD standard.aliases
  disabled := (draft.found? .disabled).getD standard.disabled

def read? (members : List (String × Json)) : Option Options :=
  (members.foldlM take? blank).map whole

variable {before after : Draft} {members : List (String × Json)} {item other : Item}

@[simp]
theorem found?_set (draft : Draft) (item : Item) (value : item.Value) :
    (draft.set item value).found? item = some value :=
  Function.update_self ..

theorem found?_set_of_ne (apart : other ≠ item) (draft : Draft) (value : item.Value) :
    (draft.set item value).found? other = draft.found? other :=
  Function.update_of_ne apart ..

theorem get_whole (draft : Draft) (item : Item) :
    item.get draft.whole = (draft.found? item).getD (item.get standard) := by
  cases item <;> rfl

theorem take?_eq_some {member : String × Json} :
    before.take? member = some after ↔
      ∃ (item : Item) (value : item.Value), item.name = member.1 ∧ before.found? item = none ∧
        item.decode? member.2 = some value ∧ before.set item value = after := by
  unfold take?
  rw [Option.bind_eq_some_iff]
  refine exists_congr fun item => ?_
  rw [Item.ofName?_eq_some]
  cases before.found? item with
  | some value => simp
  | none => simp [Option.map_eq_some_iff]

/-- What becomes of the value of an option in a draft, given the member that is there for it. -/
def Takes (item : Item) (before after : Draft) : Option Json → Prop
  | none => after.found? item = before.found? item
  | some value => before.found? item = none ∧ ∃ found, item.decode? value = some found ∧
      after.found? item = some found

/-- Once a member is taken in, the others are left. -/
theorem takes_cons_iff {member : String × Json} {rest : List (String × Json)} {value : item.Value}
    (named : item.name = member.1) (fresh : rest.lookup item.name = none)
    (free : before.found? item = none) (decoded : item.decode? member.2 = some value)
    (other : Item) :
    Takes other before after ((member :: rest).lookup other.name) ↔
      Takes other (before.set item value) after (rest.lookup other.name) := by
  rw [Dictionary.lookup_cons_eq]
  by_cases same : other = item
  · subst same
    rw [if_pos named, fresh]
    simp [Takes, free, decoded]
  · rw [if_neg fun is => same (Item.name_injective (is.trans named.symm))]
    unfold Takes
    rw [found?_set_of_ne same]

theorem fresh_iff {name : String} {rest : List (String × Json)} :
    rest.lookup name = none ↔ name ∉ rest.map (·.1) := by
  rw [← Option.not_isSome_iff_eq_none, isSome_lookup_iff, List.mem_map]

/-- A draft takes in members of different names, each for an option that it has no value for. -/
theorem foldlM_eq_some :
    members.foldlM take? before = some after ↔
      (∀ member ∈ members, ∃ item, Item.name item = member.1) ∧ (members.map (·.1)).Nodup ∧
        ∀ item : Item, Takes item before after (members.lookup item.name) := by
  induction members generalizing before with
  | nil =>
    constructor
    · intro same
      obtain rfl : before = after := Option.some.inj same
      exact ⟨List.forall_mem_nil _, List.nodup_nil, fun item => rfl⟩
    · rintro ⟨-, -, same⟩
      exact congrArg some (Draft.ext (funext fun item => (same item).symm))
  | cons member rest ih =>
    rw [List.foldlM_cons, List.map_cons, List.nodup_cons, List.forall_mem_cons]
    change Option.bind _ _ = _ ↔ _
    rw [Option.bind_eq_some_iff]
    constructor
    · rintro ⟨next, taken, further⟩
      obtain ⟨item, value, named, free, decoded, rfl⟩ := take?_eq_some.1 taken
      obtain ⟨known, distinct, takes⟩ := ih.1 further
      have fresh : rest.lookup item.name = none := by
        cases again : rest.lookup item.name with
        | none => rfl
        | some second =>
          have own := takes item
          rw [again] at own
          exact nomatch (found?_set before item value).symm.trans own.1
      refine ⟨⟨⟨item, named⟩, known⟩, ⟨named ▸ fresh_iff.1 fresh, distinct⟩, fun other => ?_⟩
      exact (takes_cons_iff named fresh free decoded other).2 (takes other)
    · rintro ⟨⟨⟨item, named⟩, known⟩, ⟨fresh, distinct⟩, takes⟩
      have own := takes item
      rw [Dictionary.lookup_cons_eq, if_pos named] at own
      obtain ⟨free, value, decoded, -⟩ := own
      refine ⟨_, take?_eq_some.2 ⟨item, value, named, free, decoded, rfl⟩, ?_⟩
      have absent := fresh_iff.2 (named ▸ fresh)
      exact ih.2 ⟨known, distinct, fun other =>
        (takes_cons_iff named absent free decoded other).1 (takes other)⟩

/-- What a draft has taken in from the start updates the default. -/
theorem Takes.updates {draft : Draft} {given : Option Json} (takes : Takes item blank draft given) :
    item.Updates standard draft.whole given := by
  cases given with
  | none =>
    have none : draft.found? item = none := takes
    change item.get draft.whole = _
    rw [get_whole, none]
    rfl
  | some value =>
    obtain ⟨-, found, decoded, last⟩ := takes
    change item.decode? value = some (item.get draft.whole)
    rw [get_whole, last, decoded]
    rfl

/-- The options that are read are those that the members update the default to. -/
theorem read?_eq_some {found : Options} :
    read? members = some found ↔
      (∀ member ∈ members, ∃ item, Item.name item = member.1) ∧ (members.map (·.1)).Nodup ∧
        ∀ item : Item, item.Updates standard found (members.lookup item.name) := by
  unfold read?
  rw [Option.map_eq_some_iff]
  constructor
  · rintro ⟨draft, filled, rfl⟩
    obtain ⟨known, distinct, takes⟩ := foldlM_eq_some.1 filled
    exact ⟨known, distinct, fun item => (takes item).updates⟩
  · rintro ⟨known, distinct, updates⟩
    let draft : Draft := ⟨fun item => (members.lookup item.name).map fun _ => item.get found⟩
    refine ⟨draft, foldlM_eq_some.2 ⟨known, distinct, fun item => ?_⟩, Item.ext fun item => ?_⟩
    · have own := updates item
      change Takes item blank draft _
      have last : draft.found? item = (members.lookup item.name).map fun _ => item.get found := rfl
      cases given : members.lookup item.name with
      | none =>
        rw [given] at last
        exact last
      | some value =>
        rw [given] at own last
        exact ⟨rfl, item.get found, own, last⟩
    · have own := updates item
      rw [get_whole]
      change ((members.lookup item.name).map _).getD _ = _
      cases given : members.lookup item.name with
      | none =>
        rw [given] at own
        exact own.symm
      | some value => rfl

end Draft

theorem ofDocument?_object (members : List (String × Json)) :
    ofDocument? (.object members) = Draft.read? members := by
  refine Option.ext fun found => ?_
  rw [Draft.read?_eq_some]
  change (if (members.map (·.1)).Nodup then _ else _) = _ ↔ _
  by_cases distinct : (members.map (·.1)).Nodup
  · rw [if_pos distinct, setAll?_eq_some distinct]
    simp only [distinct, true_and]
  · rw [if_neg distinct]
    exact ⟨nofun, fun ⟨_, other, _⟩ => absurd other distinct⟩

theorem ofText_eq_ok {text : String} {members : List (String × Json)} {found : Options}
    (read : Json.ofText? text = some (.object members)) :
    ofText text = .ok found ↔ Draft.read? members = some found ∧ found.Resolves := by
  unfold ofText
  rw [read, Option.bind_some, ofDocument?_object]
  cases given : Draft.read? members with
  | none => exact ⟨nofun, fun ⟨other, _⟩ => nomatch other⟩
  | some options =>
    change options.checked = .ok found ↔ _
    rw [checked_eq_ok, Option.some.injEq]
    exact ⟨fun ⟨same, resolves⟩ => ⟨same.symm, same ▸ resolves⟩,
      fun ⟨same, resolves⟩ => ⟨same.symm, same ▸ resolves⟩⟩

/-- The values for options are each accepted as they stand in the text, or are not accepted in order
either. -/
def DecodedAlike (members : List (String × Json)) : Prop :=
  ∀ (item : Item) (value : Json), (item.name, value) ∈ members → item.DecodesAlike value

section Agreement

variable {members : List (String × Json)} {text : String}

theorem updates_canonical_iff (distinct : (members.map (·.1)).Nodup) (alike : DecodedAlike members)
    {before after : Options} (item : Item) :
    item.Updates before after ((members.lookup item.name).map Json.canonical) ↔
      item.Updates before after (members.lookup item.name) := by
  cases given : members.lookup item.name with
  | none => exact Iff.rfl
  | some value =>
    have among := (lookup_eq_some_iff_mem distinct).1 given
    change item.decode? value.canonical = _ ↔ item.decode? value = _
    rw [(alike item value among).decode?_eq]

/-- Read as a whole, a document gives what an update by it makes of the default. -/
theorem read?_iff_accepts (distinct : (members.map (·.1)).Nodup) (alike : DecodedAlike members)
    {found : Options} :
    Draft.read? members = some found ∧ found.Resolves ↔
      Accepts (.object members) .standard found := by
  have known : (∀ member ∈ members, ∃ item, Item.name item = member.1) ↔
      ∀ name, ((Json.object members).member? name).isSome → ∃ item, Item.name item = name := by
    simp only [Json.member?_of_distinct distinct, Option.isSome_map, isSome_lookup_iff]
    exact ⟨fun all name ⟨member, among, is⟩ => is ▸ all member among,
      fun all member among => all _ ⟨member, among, rfl⟩⟩
  have updates (item : Item) :
      item.Updates .standard found ((Json.object members).member? item.name) ↔
        item.Updates .standard found (members.lookup item.name) := by
    rw [Json.member?_of_distinct distinct, updates_canonical_iff distinct alike]
  rw [Draft.read?_eq_some]
  constructor
  · rintro ⟨⟨names, -, values⟩, resolves⟩
    exact ⟨⟨members, rfl⟩, known.1 names, fun item => (updates item).2 (values item), resolves⟩
  · intro accepts
    exact ⟨⟨known.2 accepts.known, distinct, fun item => (updates item).1 (accepts.updates item)⟩,
      accepts.resolves⟩

/-- Values that are not accepted alike are aliases in which a name is repeated. -/
theorem repeated_of_not_alike (other : ¬DecodedAlike members) :
    ∃ entries, (Item.aliases.name, .object entries) ∈ members ∧
      ¬(entries.map (·.1)).Nodup := by
  obtain ⟨item, other⟩ := not_forall.1 other
  obtain ⟨value, other⟩ := not_forall.1 other
  obtain ⟨member, differ⟩ := Classical.not_imp.1 other
  unfold Item.DecodesAlike at differ
  by_cases is : item = .aliases
  · subst is
    cases value with
    | object entries =>
      refine ⟨entries, member, fun distinct => differ ?_⟩
      refine Bool.eq_iff_iff.2 ⟨fun accepted => ?_, isSome_of_canonical distinct⟩
      obtain ⟨found, given⟩ := Option.isSome_iff_exists.1 accepted
      have inOrder := @dictionaryOf?_canonical (.object entries) found given
      exact Option.isSome_iff_exists.2 ⟨found, inOrder⟩
    | _ => exact absurd rfl differ
  · rw [Item.decode?_canonical is] at differ
    exact absurd rfl differ

/-- The two readers of options agree on each object that has no name twice: the text is accepted
exactly if an update by its members is that starts from the default, and gives the same options.
Only values that are not accepted alike as text and as members in order make a difference, and they
are aliases with a repeated name. -/
theorem readers_agree (read : Json.ofText? text = some (.object members))
    (distinct : (members.map (·.1)).Nodup) :
    (DecodedAlike members → ∀ found, ofText text = .ok found ↔
        call (InPlace.update (.object members)) .standard = (.ok (), found)) ∧
      (¬DecodedAlike members → ∃ entries, (Item.aliases.name, .object entries) ∈ members ∧
        ¬(entries.map (·.1)).Nodup) := by
  refine ⟨fun alike found => ?_, repeated_of_not_alike⟩
  rw [ofText_eq_ok read, call_eq_ok]
  exact read?_iff_accepts distinct alike

end Agreement

/-- A limit and two aliases of one name, of which the later counts. -/
theorem readers_agree_aliases :
    ofText "\x7b\"maxErrors\": 3, \"atRuleAliases\": \x7b\"-x-a\": \"page\", \"-x-a\": \"MEDIA\"\x7d\x7d" =
      .ok { Options.standard with
        maxErrors := some 3
        aliases := Dictionary.empty.insert "-x-a" "MEDIA" } := by
  have read : Json.ofText?
      "\x7b\"maxErrors\": 3, \"atRuleAliases\": \x7b\"-x-a\": \"page\", \"-x-a\": \"MEDIA\"\x7d\x7d" =
        some (.object [("maxErrors", .number (.natural 3)), ("atRuleAliases",
          .object [("-x-a", .string "page"), ("-x-a", .string "MEDIA")])]) := by
    with_unfolding_all rfl
  have alike : DecodedAlike [("maxErrors", .number (.natural 3)), ("atRuleAliases",
      .object [("-x-a", .string "page"), ("-x-a", .string "MEDIA")])] := by
    intro item value member
    cases item <;> simp [Item.name] at member <;> subst member <;> rfl
  exact ((readers_agree read (by decide)).1 alike _).2 rfl

/-- An alias that is no string is refused where it stands in a text, and dropped for a later one of
its name where members are put in order. -/
example :
    let document : Json := .object
      [("atRuleAliases", .object [("-x-a", .number (.natural 1)), ("-x-a", .string "MEDIA")])]
    (ofDocument? document).isNone ∧ ∃ found, standard.update document = .ok found :=
  ⟨rfl, _, rfl⟩

end Options

end CssSyntax

import CssSyntax.Proofs.Options.Item

/-! Updates in place. An update changes a copy of the options, one option after the other, and may
fail at any of them. The copy takes the place of the options when it is whole and its aliases have
targets, so an update is done as a whole or not at all. -/

namespace CssSyntax.Options

/-- Programs that change options in place and may fail on the way. What they have changed by then
stays changed. -/
abbrev InPlace := ExceptT OptionsError (StateM Options)

namespace InPlace

/-- An option of the copy takes the value that the members have for it. -/
def assign (members : List (String × Json)) (copy : Options) (item : Item) : InPlace Options :=
  match members.lookup item.name with
  | none => return copy
  | some value =>
    match item.decode? value with
    | none => throw .malformed
    | some found => return item.put copy found

def updateMembers (members : List (String × Json)) : InPlace Unit := do
  match unknownItem? members with
  | some name => throw (.unknownItem name)
  | none =>
    let copy ← Item.all.foldlM (assign members) (← get)
    set (← ofExcept copy.checked)

def update (document : Json) : InPlace Unit :=
  match document.canonical with
  | .object members => updateMembers members
  | other => throw (.notObject other)

/-- How a program ends, and the options as it leaves them. -/
def call {α : Type} (program : InPlace α) (options : Options) : Except OptionsError α × Options :=
  program.run.run options

section Copies

variable {members : List (String × Json)} {options copy found : Options}

/-- What comes of a copy when the options are read from the members. -/
def copied? (members : List (String × Json)) (copy : Options) (item : Item) : Option Options :=
  match members.lookup item.name with
  | none => some copy
  | some value => (item.decode? value).map (item.put copy)

/-- The copy is changed, the options are not. -/
theorem call_assign (item : Item) :
    call (assign members copy item) options =
      ((copied? members copy item).elim (.error .malformed) .ok, options) := by
  unfold assign copied?
  cases members.lookup item.name with
  | none => rfl
  | some value =>
    dsimp only
    cases item.decode? value <;> rfl

theorem call_bind {α β : Type} (program : InPlace α) (following : α → InPlace β) :
    call (program >>= following) options =
      match call program options with
      | (.ok value, after) => call (following value) after
      | (.error problem, after) => (.error problem, after) := by
  change (program.run >>= ExceptT.bindCont following).run options = _
  rw [StateT.run_bind]
  change (match call program options with
    | (result, after) => (ExceptT.bindCont following result).run after) = _
  rcases call program options with ⟨_ | _, after⟩ <;> rfl

theorem call_foldlM (items : List Item) (copy : Options) :
    call (items.foldlM (assign members) copy) options =
      ((items.foldlM (copied? members) copy).elim (.error .malformed) .ok, options) := by
  induction items generalizing copy with
  | nil => rfl
  | cons item rest ih =>
    rw [List.foldlM_cons, List.foldlM_cons, call_bind, call_assign]
    cases copied? members copy item with
    | none => rfl
    | some next => exact ih next

theorem copied?_eq_some {item : Item} :
    copied? members copy item = some found ↔
      item.Updates copy found (members.lookup item.name) ∧
        ∀ other, other ≠ item → other.get found = other.get copy := by
  unfold copied?
  cases members.lookup item.name with
  | none =>
    constructor
    · intro same
      obtain rfl := Option.some.inj same
      exact ⟨rfl, fun _ _ => rfl⟩
    · rintro ⟨kept, others⟩
      refine congrArg some (Item.ext fun other => ?_)
      by_cases same : other = item
      · exact same ▸ Eq.symm kept
      · exact (others other same).symm
  | some value =>
    dsimp only
    rw [Option.map_eq_some_iff]
    constructor
    · rintro ⟨read, decoded, rfl⟩
      exact ⟨decoded.trans (congrArg some (item.get_put copy read).symm),
        fun other apart => Item.get_put_of_ne apart copy read⟩
    · rintro ⟨decoded, others⟩
      refine ⟨item.get found, decoded, Item.ext fun other => ?_⟩
      by_cases same : other = item
      · subst same
        exact other.get_put copy _
      · rw [Item.get_put_of_ne same, others other same]

/-- Going over items that all differ, each is updated once. -/
theorem copies_eq_some {items : List Item} (distinct : items.Nodup) :
    items.foldlM (copied? members) copy = some found ↔
      (∀ item ∈ items, item.Updates copy found (members.lookup item.name)) ∧
        ∀ item ∉ items, item.get found = item.get copy := by
  induction items generalizing copy with
  | nil =>
    constructor
    · intro same
      obtain rfl : copy = found := Option.some.inj same
      exact ⟨List.forall_mem_nil _, fun _ _ => rfl⟩
    · rintro ⟨-, same⟩
      exact congrArg some (Item.ext fun item => (same item List.not_mem_nil).symm)
  | cons item rest ih =>
    obtain ⟨fresh, distinct⟩ := List.nodup_cons.1 distinct
    rw [List.foldlM_cons]
    change Option.bind _ _ = _ ↔ _
    rw [Option.bind_eq_some_iff]
    constructor
    · rintro ⟨next, first, further⟩
      obtain ⟨updates, others⟩ := copied?_eq_some.1 first
      obtain ⟨inside, outside⟩ := (ih distinct).1 further
      refine ⟨List.forall_mem_cons.2 ⟨?_, fun other member => ?_⟩, fun other apart => ?_⟩
      · exact updates.congr rfl (outside item fresh)
      · exact (inside other member).congr (others other fun is => fresh (is ▸ member)).symm rfl
      · obtain ⟨isOther, notInside⟩ := not_or.1 (mt List.mem_cons.2 apart)
        exact (outside other notInside).trans (others other isOther)
    · rintro ⟨inside, outside⟩
      obtain ⟨updates, others⟩ := List.forall_mem_cons.1 inside
      refine ⟨item.put copy (item.get found), copied?_eq_some.2 ⟨?_, ?_⟩, (ih distinct).2 ⟨?_, ?_⟩⟩
      · exact updates.congr rfl (item.get_put copy _)
      · exact fun other apart => Item.get_put_of_ne apart copy _
      · intro other member
        have apart : other ≠ item := fun is => fresh (is ▸ member)
        exact (others other member).congr (Item.get_put_of_ne apart copy _) rfl
      · intro other notInside
        by_cases same : other = item
        · subst same
          exact (other.get_put copy _).symm
        · rw [Item.get_put_of_ne same]
          exact outside other fun member => (List.mem_cons.1 member).elim same notInside

/-- In which order the options are read makes no difference. -/
theorem copies_eq (distinct : (members.map (·.1)).Nodup) (known : unknownItem? members = none) :
    Item.all.foldlM (copied? members) options =
      (members.mapM itemOf?).bind options.setAll? := by
  refine Option.ext fun found => ?_
  have every (item : Item) : item ∈ Item.all := by cases item <;> decide
  have named := unknownItem?_eq_none.1 known
  change _ = some found ↔ _ = some found
  rw [setAll?_eq_some distinct, copies_eq_some (by decide)]
  exact ⟨fun ⟨inside, _⟩ => ⟨named, fun item => inside item (every item)⟩,
    fun ⟨_, updates⟩ => ⟨fun item _ => updates item, fun item apart => absurd (every item) apart⟩⟩

end Copies

/-- What a program that changes options does if it does all or nothing. -/
def wholly (options : Options) : Except OptionsError Options → Except OptionsError Unit × Options
  | .ok found => (.ok (), found)
  | .error problem => (.error problem, options)

theorem call_updateMembers {members : List (String × Json)} (options : Options)
    (distinct : (members.map (·.1)).Nodup) :
    call (updateMembers members) options = wholly options (options.updateMembers members) := by
  unfold updateMembers Options.updateMembers
  cases known : unknownItem? members with
  | some name => rfl
  | none =>
    dsimp only
    have start : call (get : InPlace Options) options = (.ok options, options) := rfl
    rw [call_bind, start]
    dsimp only
    rw [call_bind, call_foldlM, copies_eq distinct known]
    cases (members.mapM itemOf?).bind options.setAll? with
    | none => rfl
    | some copy =>
      change call (ofExcept copy.checked >>= set) options = wholly options copy.checked
      rw [call_bind]
      cases copy.checked <;> rfl

/-- The program does what the update does, and leaves the options alone where that fails. -/
theorem call_update (document : Json) (options : Options) :
    call (update document) options = wholly options (options.update document) := by
  cases document with
  | object members =>
    obtain ⟨dictionary, canonical, -⟩ := Json.canonical_object members
    unfold update Options.update
    rw [canonical]
    exact call_updateMembers options dictionary.names_nodup
  | _ => rfl

end InPlace

open InPlace

/-- The two ways to change options: to those of a whole document, or by an update. -/
inductive Step where
  | replace (text : String)
  | update (document : Json)

def Step.program : Step → InPlace Unit
  | replace text => do set (← ofExcept (ofText text))
  | update document => InPlace.update document

/-- The options after a step, accepted or refused. -/
def stepped (options : Options) (step : Step) : Options := (call step.program options).2

theorem call_replace (text : String) (options : Options) :
    call (Step.replace text).program options = wholly options (ofText text) := by
  unfold Step.program
  rw [call_bind]
  cases ofText text <;> rfl

theorem resolves_of_ofText {text : String} {found : Options} (read : ofText text = .ok found) :
    found.Resolves := by
  unfold ofText at read
  split at read
  next options given =>
    obtain ⟨rfl, resolves⟩ := checked_eq_ok.1 read
    exact resolves
  next => exact nomatch read

theorem stepped_resolves {options : Options} (resolves : options.Resolves) (step : Step) :
    (options.stepped step).Resolves := by
  unfold stepped
  cases step with
  | replace text =>
    rw [call_replace]
    cases read : ofText text with
    | error problem => exact resolves
    | ok found => exact resolves_of_ofText read
  | update document =>
    change (call (InPlace.update document) options).2.Resolves
    rw [call_update]
    cases updated : options.update document with
    | error problem => exact resolves
    | ok found => exact (update_eq_ok.1 updated).resolves

theorem run_resolves (steps : List Step) {options : Options} (resolves : options.Resolves) :
    (steps.foldl stepped options).Resolves := by
  induction steps generalizing options with
  | nil => exact resolves
  | cons step rest ih => exact ih (stepped_resolves resolves step)

/-- Two updates that are accepted one after the other, as one. -/
theorem Accepts.overridden {first second : Json} {options one two : Options}
    (near : Accepts first options one) (far : Accepts second one two) :
    Accepts (first.overriddenBy second) options two where
  isObject := ⟨_, rfl⟩
  known name given := by
    rw [Json.member?_overriddenBy, Option.isSome_or, Bool.or_eq_true] at given
    exact given.elim (far.known name) (near.known name)
  updates item := by
    rw [Json.member?_overriddenBy]
    have before := near.updates item
    have behind := far.updates item
    cases given : second.member? item.name with
    | some value =>
      rw [given] at behind
      exact behind
    | none =>
      rw [given] at behind
      exact before.congr rfl behind
  resolves := far.resolves

theorem call_eq_ok {document : Json} {options found : Options} :
    call (InPlace.update document) options = (.ok (), found) ↔ Accepts document options found := by
  rw [call_update, ← update_eq_ok]
  cases options.update document with
  | error problem => exact ⟨nofun, nofun⟩
  | ok next => simp [wholly]

/-- An update either fails and leaves the options as they are, or sets exactly what the document
names, to options whose aliases all have a built-in target. So all that comes of accepted and
refused changes has such aliases. Two updates in a row are one, with the members of the second in
place of those of the first. -/
theorem updates_atomic :
    (∀ options document,
      (∃ problem, call (InPlace.update document) options = (.error problem, options) ∧
          ¬∃ found, Accepts document options found) ∨
        ∃ found, call (InPlace.update document) options = (.ok (), found) ∧
          Accepts document options found) ∧
      (∀ steps : List Step, (steps.foldl stepped .standard).Resolves) ∧
      ∀ (options : Options) (first second : Json) (one two : Options),
        call (InPlace.update first) options = (.ok (), one) →
        call (InPlace.update second) one = (.ok (), two) →
          (∀ name, (first.overriddenBy second).member? name =
            (second.member? name).or (first.member? name)) ∧
          call (InPlace.update (first.overriddenBy second)) options = (.ok (), two) := by
  refine ⟨fun options document => ?_, fun steps => ?_, ?_⟩
  · cases updated : options.update document with
    | error problem =>
      refine .inl ⟨problem, ?_, fun ⟨found, accepted⟩ => ?_⟩
      · rw [call_update, updated]
        rfl
      · exact nomatch updated.symm.trans (update_eq_ok.2 accepted)
    | ok found =>
      have accepted := update_eq_ok.1 updated
      exact .inr ⟨found, call_eq_ok.2 accepted, accepted⟩
  · exact run_resolves steps (List.forall_mem_nil _)
  · intro options first second one two near far
    refine ⟨Json.member?_overriddenBy first second, call_eq_ok.2 ?_⟩
    exact (call_eq_ok.1 near).overridden (call_eq_ok.1 far)

/-- First a limit and an alias, then another limit: one update with the alias and the last limit. -/
theorem updates_atomic_in_a_row :
    ∃ first second one two,
      call (InPlace.update first) .standard = (.ok (), one) ∧
        call (InPlace.update second) one = (.ok (), two) ∧
          two.maxErrors = some 3 ∧ two.aliases.entries = [("-x-media", "media")] ∧
            call (InPlace.update (first.overriddenBy second)) .standard = (.ok (), two) := by
  let first : Json := .object
    [("maxErrors", .null), ("atRuleAliases", .object [("-x-media", .string "media")])]
  let second : Json := .object [("maxErrors", .number (.natural 3))]
  let one : Options :=
    { Options.standard with aliases := Dictionary.empty.insert "-x-media" "media" }
  let two : Options := { one with maxErrors := some 3 }
  have near : call (InPlace.update first) .standard = (.ok (), one) := by rfl
  have far : call (InPlace.update second) one = (.ok (), two) := by rfl
  have both := (updates_atomic.2.2 .standard first second one two near far).2
  exact ⟨first, second, one, two, near, far, rfl, rfl, both⟩

end CssSyntax.Options

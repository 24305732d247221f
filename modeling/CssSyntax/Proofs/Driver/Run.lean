import CssSyntax.Proofs.Driver.Sweep
import CssSyntax.Proofs.Parser.Trace
import CssSyntax.Proofs.Tree.Depth

/-! Readings as runs of a driver. A run is made of checked looks and steps alone, so where there is
a run nothing goes wrong on the way: no index is out of range, no count goes below zero, and no loop
stands still. A reading is driven if there is such a run from wherever the driver stands. -/

namespace CssSyntax

open Reading

namespace Driver

/-- What a look at the parser shows is found by the driver. -/
inductive Sees : {α : Type} → (Parser → α) → Driver → α → Prop
  | nth {driver : Driver} {count : Nat} {token : Token} (found : driver.nth? count = some token) :
      Sees (fun parser => parser.nth count) driver token
  | adjacent {driver : Driver} {count : Nat} {touch : Bool}
      (found : driver.isAdjacent? count = some touch) :
      Sees (fun parser => parser.isAdjacent count) driver touch
  | block {driver : Driver} {follows : Bool} (found : driver.blockFollows? = some follows) :
      Sees Parser.blockFollows driver follows
  | settings {driver : Driver} : Sees Parser.settings driver driver.settings
  | pure {α : Type} {driver : Driver} {value : α} : Sees (fun _ => value) driver value
  | bind {α β : Type} {driver : Driver} {first : Parser → α} {following : α → Parser → β}
      {value : α} {result : β} (near : Sees first driver value)
      (far : Sees (following value) driver result) :
      Sees (fun parser => following (first parser) parser) driver result

/-- The run of a reading from one driver to the other, with its result. -/
inductive Runs : {α : Type} → Reading α → Driver → α → Driver → Prop
  | pure {α : Type} {driver : Driver} {value : α} : Runs (Pure.pure value) driver value driver
  | bind {α β : Type} {driver middle after : Driver} {reading : Reading α}
      {following : α → Reading β} {value : α} {result : β}
      (near : Runs reading driver value middle)
      (far : Runs (following value) middle result after) :
      Runs (reading >>= following) driver result after
  | look {α : Type} {driver : Driver} {seen : Parser → α} {blind} {value : α}
      (sees : Sees seen driver value) : Runs (peek seen blind) driver value driver
  | advance {driver : Driver} : Runs Reading.advance driver () driver.advance
  | reportAt {driver : Driver} {problem : Problem} {token : Token} :
      Runs (Reading.reportAt problem token) driver () (driver.record problem token)
  | skip {driver after : Driver} {sweep : Sweep} {count : Nat} {passed : List Token}
      (passes : sweep.Passes count driver passed after) :
      Runs (Reading.skip (sweep.span count)) driver () after
  | take {driver after : Driver} {sweep : Sweep} {count : Nat} {passed : List Token}
      (passes : sweep.Passes count driver passed after) :
      Runs (Reading.take (sweep.span count)) driver passed after
  /-- Below the limit a construct is read with one more open. At the limit it is its refusal. -/
  | entered {α : Type} {driver middle after : Driver} {refusal : Reading α}
      {inside : Nat → Reading α} {value : α} (free : driver.depth < Grammar.nestingLimit)
      (run : Runs (inside driver.enter.depth) driver.enter value middle)
      (back : middle.leave? = some after) :
      Runs (Grammar.nested driver.depth refusal inside) driver value after
  | stopped {α : Type} {driver : Driver} {stop : Token → Bool} {item : Reading (List α)}
      {token : Token} (current : driver.nth? 0 = some token) (stops : stop token = true) :
      Runs (collect stop item) driver [] driver
  /-- A loop goes on from further ahead. -/
  | turned {α : Type} {driver middle after : Driver} {stop : Token → Bool}
      {item : Reading (List α)} {token : Token} {found more : List α}
      (current : driver.nth? 0 = some token) (going : stop token = false)
      (run : Runs item driver found middle) (further : driver.position < middle.position)
      (rest : Runs (collect stop item) middle more after) :
      Runs (collect stop item) driver (found ++ more) after
  | finished {σ : Type} {driver : Driver} {stop : Token → Bool} {step : σ → Reading σ} {state : σ}
      {token : Token} (current : driver.nth? 0 = some token) (stops : stop token = true) :
      Runs (iterate stop step state) driver state driver
  | stepped {σ : Type} {driver middle after : Driver} {stop : Token → Bool} {step : σ → Reading σ}
      {state found result : σ} {token : Token} (current : driver.nth? 0 = some token)
      (going : stop token = false) (run : Runs (step state) driver found middle)
      (further : driver.position < middle.position)
      (rest : Runs (iterate stop step found) middle result after) :
      Runs (iterate stop step state) driver result after

/-- Whatever is run, the driver after it is a later one of the same tokens and settings, with as
much open as before. -/
theorem Runs.leads {α : Type} {reading : Reading α} {driver after : Driver} {value : α}
    (runs : Runs reading driver value after) : driver.Leads after := by
  induction runs with
  | pure => exact .refl
  | bind _ _ near far => exact near.trans far
  | look => exact .refl
  | advance => exact .advance
  | reportAt => exact .record
  | skip passes => exact passes.leads
  | take passes => exact passes.leads
  | entered _ _ back inner => exact inner.nested back
  | stopped => exact .refl
  | turned _ _ _ _ _ first rest => exact first.trans rest
  | finished => exact .refl
  | stepped _ _ _ _ _ first rest => exact first.trans rest

/-- The driver finds what the look shows, wherever it stands. -/
def Seen {α : Type} (look : Parser → α) : Prop :=
  ∀ (driver : Driver) (parser : Parser), driver.Shows parser → Sees look driver (look parser)

namespace Seen

variable {α β : Type}

theorem nth (count : Nat) : Seen fun parser => parser.nth count :=
  fun _ _ shows => .nth (shows.nth? count)

theorem adjacent (count : Nat) : Seen fun parser => parser.isAdjacent count :=
  fun _ _ shows => .adjacent (shows.isAdjacent? count)

theorem block : Seen Parser.blockFollows := fun _ _ shows => .block shows.blockFollows?

theorem bind {first : Parser → α} {following : α → Parser → β} (near : Seen first)
    (far : ∀ value, Seen (following value)) :
    Seen fun parser => following (first parser) parser :=
  fun driver parser shows => .bind (near driver parser shows) (far _ driver parser shows)

theorem pure (value : α) : Seen fun _ => value := fun _ _ _ => .pure

theorem ap {part : Parser → α → β} {look : Parser → α} (near : Seen part) (far : Seen look) :
    Seen fun parser => part parser (look parser) :=
  @bind _ _ part (fun change parser => change (look parser)) near fun change =>
    @bind _ _ look (fun value _ => change value) far fun value => pure (change value)

theorem setting (part : Settings → α) : Seen fun parser => part parser.settings := by
  have settings : Seen Parser.settings := fun driver parser shows => shows.settings ▸ .settings
  exact ap (pure part) settings

/-- A look at the first tokens ahead, and at whether they touch. -/
theorem near {look : Parser → α} (part : Token → Token → Token → Bool → Bool → α)
    (is : ∀ parser, look parser = part parser.current parser.next (parser.nth 2)
      (parser.isAdjacent 1) (parser.isAdjacent 2)) : Seen look := by
  rw [funext is]
  exact ((((pure part).ap (nth 0)).ap (nth 1)).ap (nth 2)).ap (adjacent 1) |>.ap (adjacent 2)

end Seen

end Driver

namespace Reading

variable {α β σ : Type}

/-- From each driver that stands where the parser stands, with so much open, there is a run of the
reading to where the parser stands after it, with the same result. -/
def Driven (reading : Reading α) (depth : Nat) (parser : Parser) : Prop :=
  ∀ driver : Driver, driver.Shows parser → driver.depth = depth →
    ∃ after, Driver.Runs reading driver (reading parser).1 after ∧ after.Shows (reading parser).2

namespace Driven

variable {depth : Nat} {parser : Parser} {reading : Reading α} {following : α → Reading β}

theorem pure {value : β} : (Pure.pure value : Reading β).Driven depth parser :=
  fun driver shows _ => ⟨driver, .pure, shows⟩

theorem bind (near : reading.Driven depth parser)
    (far : (following (reading parser).1).Driven depth (reading parser).2) :
    (reading >>= following).Driven depth parser := by
  intro driver shows level
  obtain ⟨middle, first, shown⟩ := near driver shows level
  obtain ⟨after, second, last⟩ := far middle shown (first.leads.depth.trans level)
  exact ⟨after, first.bind second, last⟩

theorem map {change : α → β} (near : reading.Driven depth parser) :
    (change <$> reading).Driven depth parser :=
  bind near pure

/-- Last a change of what was read. -/
theorem returning {change : α → β} (near : reading.Driven depth parser) :
    (reading >>= fun found => Pure.pure (change found)).Driven depth parser :=
  bind near pure

theorem peek {seen : Parser → α} {blind} (sees : Driver.Seen seen) :
    (Reading.peek seen blind).Driven depth parser :=
  fun driver shows _ => ⟨driver, .look (sees driver parser shows), shows⟩

theorem look {seen : Parser → α} {blind} (sees : Driver.Seen seen)
    (far : (following (seen parser)).Driven depth parser) :
    (Reading.peek seen blind >>= following).Driven depth parser :=
  bind (peek sees) far

theorem current {following : Token → Reading β}
    (far : (following parser.current).Driven depth parser) :
    (Reading.current >>= following).Driven depth parser :=
  look (.nth 0) far

theorem currentIs {kind : Kind} {following : Bool → Reading β}
    (far : (following (parser.currentIs kind)).Driven depth parser) :
    (Reading.currentIs kind >>= following).Driven depth parser :=
  look (.near (fun token _ _ _ _ => token.kind == kind) fun _ => rfl) far

theorem nextIs {kind : Kind} {following : Bool → Reading β}
    (far : (following (parser.nextIs kind)).Driven depth parser) :
    (Reading.nextIs kind >>= following).Driven depth parser :=
  look (.near (fun _ token _ _ _ => token.kind == kind) fun _ => rfl) far

theorem ite {condition : Prop} [Decidable condition] {yes no : Reading β}
    (first : condition → yes.Driven depth parser) (second : ¬condition → no.Driven depth parser) :
    (if condition then yes else no).Driven depth parser := by
  split
  next holds => exact first holds
  next fails => exact second fails

theorem step : Reading.advance.Driven depth parser :=
  fun driver shows _ => ⟨driver.advance, .advance, shows.advance⟩

theorem advance {following : Unit → Reading β}
    (far : (following ()).Driven depth (parser.skip 1)) :
    (Reading.advance >>= following).Driven depth parser :=
  bind step far

/-- The loops that count nothing, or test what they count. -/
theorem skip (sweep : Sweep) (count : Nat) (guards : sweep.Guards count) :
    (Reading.skip (sweep.span count)).Driven depth parser := by
  intro driver shows _
  obtain ⟨after, passes, shown⟩ := Sweep.Passes.runs guards shows
  exact ⟨after, .skip passes, shown⟩

theorem take (sweep : Sweep) (count : Nat) (guards : sweep.Guards count) :
    (Reading.take (sweep.span count)).Driven depth parser := by
  intro driver shows _
  obtain ⟨after, passes, shown⟩ := Sweep.Passes.runs guards shows
  exact ⟨after, .take passes, shown⟩

theorem skipComments : Reading.skipComments.Driven depth parser :=
  skip (.before (fun token => token.kind != .comment) fun _ => rfl) 0 nofun

theorem skipBlock : Reading.skipBlock.Driven depth parser := skip .block 0 nofun

theorem skipDeclaration : Reading.skipDeclaration.Driven depth parser := skip .declaration 0 nofun

theorem skipGroup : Reading.skipGroup.Driven depth parser := skip .group 0 nofun

theorem skipAtRule : Reading.skipAtRule.Driven depth parser := skip .atRule 0 nofun

theorem reportAt {problem : Problem} {token : Token} :
    (Reading.reportAt problem token).Driven depth parser :=
  fun driver shows _ => ⟨driver.record problem token, .reportAt, shows.record problem token⟩

theorem report {problem : Problem} : (Reading.report problem).Driven depth parser :=
  current reportAt

theorem reportIf {condition : Bool} {problem : Problem} :
    (Reading.reportIf condition problem).Driven depth parser :=
  ite (fun _ => report) fun _ => pure

theorem accept {kind : Kind} : (Reading.accept kind).Driven depth parser :=
  currentIs (ite (fun _ => advance pure) fun _ => pure)

theorem acceptWord {word : Bytes} : (Reading.acceptWord word).Driven depth parser :=
  current (ite (fun _ => advance pure) fun _ => pure)

theorem expect {kind : Kind} {problem : Problem} :
    (Reading.expect kind problem).Driven depth parser :=
  bind accept (ite (fun _ => pure) fun _ => bind report pure)

/-- One level deeper, unless the limit is reached. -/
theorem nested {refusal : Reading α} {inside : Nat → Reading α}
    (refused : refusal.Driven depth parser)
    (entered : depth < Grammar.nestingLimit → (inside (depth + 1)).Driven (depth + 1) parser) :
    (Grammar.nested depth refusal inside).Driven depth parser := by
  rintro driver shows rfl
  by_cases full : Grammar.nestingLimit ≤ driver.depth
  · have same : Grammar.nested driver.depth refusal inside = refusal := if_pos full
    rw [same]
    exact refused driver shows rfl
  · have free := Nat.lt_of_not_le full
    have same : Grammar.nested driver.depth refusal inside = inside (driver.depth + 1) :=
      if_neg full
    obtain ⟨middle, run, shown⟩ := entered free driver.enter shows.enter rfl
    obtain ⟨after, back, last⟩ := shown.leave? run.leads.depth
    have enters : Driver.Runs (Grammar.nested driver.depth refusal inside) driver _ after :=
      .entered free run back
    rw [same] at enters ⊢
    exact ⟨after, enters, last⟩

section Loops

variable {stop : Token → Bool}

theorem collect {item : Reading (List α)} (advances : Advances stop item)
    (items : ∀ parser, item.Driven depth parser) : (collect stop item).Driven depth parser := by
  induction parser using (measure fun parser : Parser => parser.ahead.length).wf.induction with
  | h parser ih =>
    intro driver shows level
    by_cases stops : stop parser.current = true
    · rw [collect_stopped stops]
      exact ⟨driver, .stopped (shows.nth? 0) stops, shows⟩
    · have going := Bool.eq_false_iff.2 stops
      obtain ⟨middle, run, shown⟩ := items parser driver shows level
      have shorter := advances parser going
      obtain ⟨after, rest, last⟩ := ih _ shorter middle shown (run.leads.depth.trans level)
      have further := shows.position_lt shown run.leads shorter
      rw [collect_step advances going]
      exact ⟨after, .turned (shows.nth? 0) going run further rest, last⟩

theorem iterate {step : σ → Reading σ} (advances : ∀ state, Advances stop (step state))
    (steps : ∀ state parser, (step state).Driven depth parser) {state : σ} :
    (iterate stop step state).Driven depth parser := by
  induction parser using (measure fun parser : Parser => parser.ahead.length).wf.induction
    generalizing state with
  | h parser ih =>
    intro driver shows level
    by_cases stops : stop parser.current = true
    · rw [iterate_stopped stops]
      exact ⟨driver, .finished (shows.nth? 0) stops, shows⟩
    · have going := Bool.eq_false_iff.2 stops
      obtain ⟨middle, run, shown⟩ := steps state parser driver shows level
      have shorter := advances state parser going
      obtain ⟨after, rest, last⟩ := ih _ shorter middle shown (run.leads.depth.trans level)
      have further := shows.position_lt shown run.leads shorter
      rw [iterate_step advances going]
      exact ⟨after, .stepped (shows.nth? 0) going run further rest, last⟩

end Loops

end Driven

end Reading

end CssSyntax

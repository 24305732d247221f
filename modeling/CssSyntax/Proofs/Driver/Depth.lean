import CssSyntax.Proofs.Driver.Rule

/-! How much is open during a run. A run goes one level deeper where it enters a construct and comes
back behind it, so what is open in between is bounded by the limit that each entry is tested
against. -/

namespace CssSyntax

open Reading

/-- The loop comes through the driver on its way. -/
inductive Sweep.Meets (sweep : Sweep) : Nat → Driver → Driver → Prop
  | here {count : Nat} {driver : Driver} : Meets sweep count driver driver
  | last {count : Nat} {driver : Driver} {token follower : Token}
      (current : driver.nth? 0 = some token) (next : driver.nth? 1 = some follower)
      (turn : sweep.turn? count token follower = some .last) :
      Meets sweep count driver driver.advance
  | next {count more : Nat} {driver met : Driver} {token follower : Token}
      (current : driver.nth? 0 = some token) (next : driver.nth? 1 = some follower)
      (turn : sweep.turn? count token follower = some (.next more))
      (rest : Meets sweep more driver.advance met) : Meets sweep count driver met

theorem Sweep.Meets.leads {sweep : Sweep} {count : Nat} {driver met : Driver}
    (meets : sweep.Meets count driver met) : driver.Leads met := by
  induction meets with
  | here => exact .refl
  | last => exact .advance
  | next _ _ _ _ further => exact Driver.Leads.advance.trans further

namespace Driver

/-- A run of the reading from the first driver comes through the second one, whether or not that
run ends. -/
inductive Meets : {α : Type} → Reading α → Driver → Driver → Prop
  | start {α : Type} {reading : Reading α} {driver : Driver} : Meets reading driver driver
  | finish {α : Type} {reading : Reading α} {driver after : Driver} {value : α}
      (run : Runs reading driver value after) : Meets reading driver after
  | first {α β : Type} {reading : Reading α} {following : α → Reading β} {driver met : Driver}
      (meets : Meets reading driver met) : Meets (reading >>= following) driver met
  | second {α β : Type} {reading : Reading α} {following : α → Reading β}
      {driver middle met : Driver} {value : α} (near : Runs reading driver value middle)
      (meets : Meets (following value) middle met) : Meets (reading >>= following) driver met
  | skip {driver met : Driver} {sweep : Sweep} {count : Nat}
      (passes : sweep.Meets count driver met) : Meets (Reading.skip (sweep.span count)) driver met
  | take {driver met : Driver} {sweep : Sweep} {count : Nat}
      (passes : sweep.Meets count driver met) : Meets (Reading.take (sweep.span count)) driver met
  /-- Inside of a construct one more is open. -/
  | entered {α : Type} {driver met : Driver} {refusal : Reading α} {inside : Nat → Reading α}
      (free : driver.depth < Grammar.nestingLimit)
      (meets : Meets (inside driver.enter.depth) driver.enter met) :
      Meets (Grammar.nested driver.depth refusal inside) driver met
  | turn {α : Type} {driver met : Driver} {stop : Token → Bool} {item : Reading (List α)}
      {token : Token} (current : driver.nth? 0 = some token) (going : stop token = false)
      (meets : Meets item driver met) : Meets (collect stop item) driver met
  | turned {α : Type} {driver middle met : Driver} {stop : Token → Bool}
      {item : Reading (List α)} {token : Token} {found : List α}
      (current : driver.nth? 0 = some token) (going : stop token = false)
      (run : Runs item driver found middle) (meets : Meets (collect stop item) middle met) :
      Meets (collect stop item) driver met
  | step {σ : Type} {driver met : Driver} {stop : Token → Bool} {step : σ → Reading σ} {state : σ}
      {token : Token} (current : driver.nth? 0 = some token) (going : stop token = false)
      (meets : Meets (step state) driver met) : Meets (iterate stop step state) driver met
  | stepped {σ : Type} {driver middle met : Driver} {stop : Token → Bool} {step : σ → Reading σ}
      {state found : σ} {token : Token} (current : driver.nth? 0 = some token)
      (going : stop token = false) (run : Runs (step state) driver found middle)
      (meets : Meets (iterate stop step found) middle met) :
      Meets (iterate stop step state) driver met

/-- No run comes below what was open before it, or goes past the limit. -/
theorem Meets.depth_between {α : Type} {reading : Reading α} {driver met : Driver}
    (meets : Meets reading driver met) (within : driver.depth ≤ Grammar.nestingLimit) :
    driver.depth ≤ met.depth ∧ met.depth ≤ Grammar.nestingLimit := by
  induction meets with
  | start => exact ⟨Nat.le_refl _, within⟩
  | finish run =>
    rw [run.leads.depth]
    exact ⟨Nat.le_refl _, within⟩
  | first _ ih => exact ih within
  | second near _ ih =>
    rw [near.leads.depth] at ih
    exact ih within
  | skip passes =>
    rw [passes.leads.depth]
    exact ⟨Nat.le_refl _, within⟩
  | take passes =>
    rw [passes.leads.depth]
    exact ⟨Nat.le_refl _, within⟩
  | entered free _ ih =>
    obtain ⟨deeper, limited⟩ := ih free
    exact ⟨Nat.le_of_succ_le deeper, limited⟩
  | turn _ _ _ ih => exact ih within
  | turned _ _ run _ ih =>
    rw [run.leads.depth] at ih
    exact ih within
  | step _ _ _ ih => exact ih within
  | stepped _ _ run _ ih =>
    rw [run.leads.depth] at ih
    exact ih within

end Driver

/-- Whatever the source and the options are, no path of the tree passes more than 128 rule-sets and
at-rules, and with the calls no more than 129 parts. A driver has a run to the same report, it has
no more than 128 constructs open anywhere on the way, and none at the end. The report is also that
of any counter that goes by the rule up to the limit, so nothing hangs on what it would do beyond. -/
theorem parse_depth_bounded (options : Options) (source : Bytes) :
    let report := Report.ofSource options source
    let driver := Driver.ofTokens options.settings (tokenize source)
    let reading := Grammar.stylesheet Grammar.nestingLimit
    (∀ path, report.stylesheet.Path path →
      path.countP Part.isLevel ≤ 128 ∧
        path.countP (fun part => part.isLevel || part.isCall) ≤ 129) ∧
    (∃ after, Driver.Runs reading driver report.stylesheet after ∧
      after.errors = report.errors ∧ after.depth = 0) ∧
    (∀ met, Driver.Meets reading driver met → met.depth ≤ 128) ∧
    ∀ counter : Grammar.Counter, counter.Counts → counter.report options source = report := by
  refine ⟨fun path is => ?_, ?_, fun met meets => ?_, fun counter counts => ?_⟩
  · have rules := Grammar.stylesheet_yields Grammar.nestingLimit _
      (Parser.ofTokens_spelled options.settings source)
    refine Part.Fits.counts is.chain fun first head => ?_
    obtain ⟨rule, among, rfl⟩ := List.mem_map.1 (is.start first head)
    exact (rules rule among).2
  · let parser := Parser.ofTokens options.settings (tokenize source)
    have shows := Driver.ofTokens_shows options.settings (tokenize source)
    have driven : (Grammar.stylesheet (Grammar.roomAt 0)).Driven 0 parser :=
      Grammar.stylesheet_driven
    obtain ⟨after, run, shown⟩ := driven _ shows rfl
    exact ⟨after, run, shown.errors, run.leads.depth⟩
  · exact (meets.depth_between (Nat.zero_le _)).2
  · unfold Grammar.Counter.report
    rw [counts.stylesheet_eq]
    rfl

/-- The path from a rule-set over its declaration and a call to the argument. -/
theorem parse_depth_bounded_call :
    ∃ path, (Report.ofSource .standard (utf8 "a { b: f(c) }")).stylesheet.Path path ∧
      path.length = 5 ∧ path.countP Part.isLevel ≤ 128 ∧
      path.countP (fun part => part.isLevel || part.isCall) ≤ 129 ∧
      (∃ after, Driver.Meets (Grammar.stylesheet Grammar.nestingLimit)
        (.ofTokens Options.standard.settings (tokenize (utf8 "a { b: f(c) }"))) after ∧
          after.errors = [] ∧ after.depth ≤ 128) ∧
      Grammar.Counter.ofRoom.report .standard (utf8 "a { b: f(c) }") =
        Report.ofSource .standard (utf8 "a { b: f(c) }") := by
  obtain ⟨bounds, ⟨after, run, errors, -⟩, limited, counts⟩ :=
    parse_depth_bounded .standard (utf8 "a { b: f(c) }")
  have some : (((Report.ofSource .standard (utf8 "a { b: f(c) }")).stylesheet.rules.map
      Part.node).head?.bind fun rule => rule.children.head?.bind fun member =>
        member.children.head?.bind fun declared => declared.children.head?.bind fun call =>
          call.children.head?.map fun argument =>
            [rule, member, declared, call, argument]).isSome = true := by
    decide +kernel
  obtain ⟨path, found⟩ := Option.isSome_iff_exists.1 some
  obtain ⟨rule, first, found⟩ := Option.bind_eq_some_iff.1 found
  obtain ⟨member, second, found⟩ := Option.bind_eq_some_iff.1 found
  obtain ⟨declared, third, found⟩ := Option.bind_eq_some_iff.1 found
  obtain ⟨call, fourth, found⟩ := Option.bind_eq_some_iff.1 found
  obtain ⟨argument, fifth, rfl⟩ := Option.map_eq_some_iff.1 found
  have is : (Report.ofSource .standard (utf8 "a { b: f(c) }")).stylesheet.Path
      [rule, member, declared, call, argument] := by
    constructor
    · intro start head
      obtain rfl := Option.some.inj head
      exact List.mem_of_head? first
    · simp only [Part.IsPath, List.isChain_cons_cons, List.isChain_singleton, and_true]
      exact ⟨List.mem_of_head? second, List.mem_of_head? third, List.mem_of_head? fourth,
        List.mem_of_head? fifth⟩
  obtain ⟨levels, calls⟩ := bounds _ is
  have clean : (Report.ofSource .standard (utf8 "a { b: f(c) }")).errors = [] := by decide +kernel
  refine ⟨_, is, rfl, levels, calls, ?_, counts _ Grammar.Counter.ofRoom_counts⟩
  exact ⟨after, .finish run, errors.trans clean, limited _ (.finish run)⟩

end CssSyntax

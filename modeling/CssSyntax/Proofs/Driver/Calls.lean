import CssSyntax.Call
import CssSyntax.Proofs.Driver.Rule
import CssSyntax.Proofs.Driver.Slice

/-! A driver under any calls. From each place in any tokens each call has a run, so nothing goes
wrong in it, and what a driver keeps from one step to the next it keeps over all calls. -/

namespace CssSyntax

open Reading.Driven

variable {depth : Nat} {parser : Parser}

theorem readWithin_driven (production : Production) :
    (production.readWithin (Grammar.roomAt depth)).Driven depth parser := by
  have rules := Grammar.drivesRules depth
  cases production with
  | stylesheet => exact map Grammar.stylesheet_driven
  | comment => exact map Grammar.comment_driven
  | ruleSet => exact map (rules.ruleSet parser)
  | declaration => exact map Grammar.declaration_driven
  | value => exact map Grammar.value_driven
  | call => exact map Grammar.call_driven
  | atRule => exact map (rules.atRule parser)
  | media => exact map (Grammar.media_driven rules)
  | mediaQuery => exact map Grammar.mediaQuery_driven
  | mediaFeature => exact map Grammar.mediaFeature_driven
  | keyframes => exact map Grammar.keyframes_driven
  | keyframeStop => exact map Grammar.keyframeStop_driven
  | importRule => exact map Grammar.importRule_driven
  | supports => exact map (Grammar.supportsRule_driven rules)
  | supportsCondition => exact map Grammar.supportsCondition_driven
  | charset => exact map Grammar.charset_driven
  | namespaceRule => exact map Grammar.namespaceRule_driven
  | layer => exact map (Grammar.layer_driven rules)
  | fontFace => exact map Grammar.fontFace_driven
  | counterStyle => exact map Grammar.counterStyle_driven
  | colorProfile => exact map Grammar.colorProfile_driven
  | page => exact map Grammar.page_driven
  | viewport => exact map Grammar.viewport_driven
  | fontFeatureValues => exact map Grammar.fontFeatureValues_driven
  | container => exact map (Grammar.container_driven rules)
  | containerCondition => exact map (Grammar.containerCondition_driven depth parser)

/-- Each call has a run from wherever the driver stands with nothing open. -/
theorem run_driven (call : Call) : call.run.Driven 0 parser := by
  cases call with
  | current => exact map (peek (.nth 0))
  | next => exact map (peek (.nth 1))
  | nth count => exact map (peek (.nth count))
  | currentIs kind => exact currentIs pure
  | nextIs kind => exact nextIs pure
  | currentIsWord word =>
    exact map (peek (.near (fun current _ _ _ _ => current.isWord word) fun _ => rfl))
  | isAdjacent count => exact map (peek (.adjacent count))
  | atEnd => exact map (peek (.near (fun current _ _ _ _ => current.kind == .eof) fun _ => rfl))
  | blockFollows => exact map (peek .block)
  | advance => exact map step
  | skipComments => exact map skipComments
  | skipBlock => exact map skipBlock
  | skipDeclaration => exact map skipDeclaration
  | skipGroup => exact map skipGroup
  | skipAtRule => exact map skipAtRule
  | accept => exact map accept
  | acceptWord => exact map acceptWord
  | expect => exact map expect
  | report => exact map report
  | reportAt problem count => exact look (.nth count) (bind reportAt pure)
  | reportToken => exact map reportAt
  | read production =>
    have within : (production.readWithin (Grammar.roomAt 0)).Driven 0 parser :=
      readWithin_driven production
    exact map within

namespace Driver

/-- Runs of calls one after the other, each with its answer and the driver after it. -/
inductive RunsAll : List Call → Driver → List (Answer × Driver) → Prop
  | nil {driver : Driver} : RunsAll [] driver []
  | cons {call : Call} {calls : List Call} {driver after : Driver} {answer : Answer}
      {trace : List (Answer × Driver)} (run : Runs call.run driver answer after)
      (rest : RunsAll calls after trace) : RunsAll (call :: calls) driver ((answer, after) :: trace)

variable {driver : Driver} {calls : List Call}

/-- However the calls are run, each driver leads on to all drivers after it. -/
theorem RunsAll.leads {trace : List (Answer × Driver)} (runs : RunsAll calls driver trace) :
    (driver :: trace.map Prod.snd).Pairwise Leads := by
  induction runs with
  | nil => exact List.pairwise_singleton _ _
  | @cons call calls driver after answer trace run _ ih =>
    refine List.pairwise_cons.2 ⟨fun later member => ?_, ih⟩
    rcases List.mem_cons.1 member with rfl | further
    · exact run.leads
    · exact run.leads.trans ((List.pairwise_cons.1 ih).1 later further)

/-- The answers to the calls are those of the parser, and the driver stands where it stands. -/
def Agrees (driven : Answer × Driver) (read : Answer × Parser) : Prop :=
  driven.1 = read.1 ∧ driven.2.Shows read.2

theorem Shows.runsAll (shows : driver.Shows parser) (closed : driver.depth = 0)
    (calls : List Call) :
    ∃ trace, RunsAll calls driver trace ∧ List.Forall₂ Agrees trace (Call.runAll calls parser) := by
  induction calls generalizing driver parser with
  | nil => exact ⟨[], .nil, .nil⟩
  | cons call calls ih =>
    obtain ⟨after, run, shown⟩ := run_driven call driver shows closed
    obtain ⟨trace, runs, agree⟩ := ih shown (run.leads.depth.trans closed)
    exact ⟨_, .cons run runs, .cons ⟨rfl, shown⟩ agree⟩

end Driver

/-- Any calls on any tokens under any settings have runs, with the answers of the parser: no index
is out of range, no count goes below zero and no loop stands still, and urls are cut out of tokens
within bounds. In all runs of the calls the index stays in range and never goes back, the last token
is the end of the input, as much is open after each call as before it, diagnostics are only put
behind those that are there and never past the limit, and tokens and settings stay the same. -/
theorem driver_runs (settings : Settings) (tokens : List Token) (calls : List Call) :
    (∃ trace, Driver.RunsAll calls (.ofTokens settings tokens) trace ∧
      List.Forall₂ Driver.Agrees trace (Call.runAll calls (.ofTokens settings tokens))) ∧
    (∀ literal, Value.ofUri? literal = some (Value.ofUri literal)) ∧
    ∀ trace, Driver.RunsAll calls (.ofTokens settings tokens) trace →
      (Driver.ofTokens settings tokens :: trace.map Prod.snd).Pairwise Driver.Leads ∧
      ∀ driver ∈ Driver.ofTokens settings tokens :: trace.map Prod.snd, driver.Sound := by
  have shows := Driver.ofTokens_shows settings tokens
  refine ⟨shows.runsAll rfl calls, Value.ofUri?_eq, fun trace runs => ⟨runs.leads, ?_⟩⟩
  have sound := shows.sound fun limit _ => Nat.zero_le limit
  refine List.forall_mem_cons.2 ⟨sound, fun driver member => ?_⟩
  exact ((List.pairwise_cons.1 runs.leads).1 driver member).sound sound

/-- Calls out of their place, at a limit of one diagnostic. -/
theorem driver_runs_misplaced :
    ∃ trace, Driver.RunsAll [.read .mediaFeature, .read .call, .nth 9, .skipGroup, .read .atRule]
        (.ofTokens ⟨.builtin, true, some 1⟩ (tokenize (utf8 "a \x7b b: f(c) \x7d :not(d \x7b e"))) trace ∧
      trace.length = 5 ∧ (trace.map Prod.snd).Pairwise Driver.Leads ∧
      ∀ driver ∈ trace.map Prod.snd, driver.Sound := by
  obtain ⟨⟨trace, runs, agree⟩, -, all⟩ := driver_runs ⟨.builtin, true, some 1⟩
    (tokenize (utf8 "a \x7b b: f(c) \x7d :not(d \x7b e"))
    [.read .mediaFeature, .read .call, .nth 9, .skipGroup, .read .atRule]
  obtain ⟨leads, sound⟩ := all trace runs
  exact ⟨trace, runs, agree.length_eq, (List.pairwise_cons.1 leads).2,
    (List.forall_mem_cons.1 sound).2⟩

end CssSyntax

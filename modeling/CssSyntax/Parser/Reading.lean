import CssSyntax.Parser.State

/-! A reading takes tokens off the front of a parser, may record diagnostics and yields a result.
It never fails: what does not fit is recorded, and the reading goes on. -/

namespace CssSyntax

/-- True of a run that yields the same result, takes the same tokens and finds the same problems
whatever was recorded before and however much may be recorded. -/
def Uniform {α : Type} (run : Parser → α × Parser) (parser : Parser) : Prop :=
  ∃ count found, ∀ limit errors,
    run (parser.withErrors limit errors) =
      ((run parser).1, (parser.withErrors limit errors).step count found)

@[ext]
structure Reading (α : Type) where
  run : Parser → α × Parser
  uniform : ∀ parser, Uniform run parser

namespace Uniform

variable {α β : Type} {run : Parser → α × Parser} {parser : Parser}

theorem run_eq (uniform : Uniform run parser) :
    ∃ count found, (run parser).2 = parser.step count found ∧
      ∀ limit errors, run (parser.withErrors limit errors) =
        ((run parser).1, (run parser).2.withErrors limit (capped limit errors found)) := by
  obtain ⟨count, found, same⟩ := uniform
  have own : (run parser).2 = parser.step count found :=
    congrArg Prod.snd (same parser.settings.maxErrors parser.errors)
  refine ⟨count, found, own, fun limit errors => ?_⟩
  rw [same, own, Parser.withErrors_step]

/-- A look at a parser that sees no diagnostics, and takes as many tokens as it sees fit. -/
theorem of_look (look : Parser → α × Nat)
    (blind : ∀ limit errors, look (parser.withErrors limit errors) = look parser) :
    Uniform (fun parser => ((look parser).1, parser.skip (look parser).2)) parser := by
  refine ⟨(look parser).2, [], fun limit errors => ?_⟩
  simp only [blind, Parser.step_skip]

theorem bind (following : α → Parser → β × Parser) (first : Uniform run parser)
    (second : Uniform (following (run parser).1) (run parser).2) :
    Uniform (fun parser => following (run parser).1 (run parser).2) parser := by
  obtain ⟨count, found, own, same⟩ := first.run_eq
  obtain ⟨further, more, next⟩ := second
  refine ⟨count + further, found ++ more, fun limit errors => ?_⟩
  have last := next limit (capped limit errors found)
  dsimp only
  rw [same, last, own, ← Parser.withErrors_step, Parser.step_step]

theorem ite {condition : Parser → Prop} [DecidablePred condition] {other : Parser → α × Parser}
    (blind : ∀ limit errors, condition (parser.withErrors limit errors) ↔ condition parser)
    (yes : condition parser → Uniform run parser)
    (no : ¬condition parser → Uniform other parser) :
    Uniform (fun parser => if condition parser then run parser else other parser) parser := by
  by_cases holds : condition parser
  · simpa only [Uniform, blind, holds, if_true] using yes holds
  · simpa only [Uniform, blind, holds, if_false] using no holds

/-- How far a run gets does not depend on the diagnostics either. -/
theorem ahead_eq (uniform : Uniform run parser) (limit : Option Nat) (errors : List Diagnostic) :
    (run (parser.withErrors limit errors)).2.ahead = (run parser).2.ahead := by
  obtain ⟨_, _, _, same⟩ := uniform.run_eq
  rw [same]
  rfl

end Uniform

namespace Reading

instance {α : Type} : CoeFun (Reading α) fun _ => Parser → α × Parser := ⟨Reading.run⟩

/-- What a look at the parser shows. -/
def peek {α : Type} (look : Parser → α)
    (blind : ∀ parser limit errors, look (parser.withErrors limit errors) = look parser := by
      intros; rfl) : Reading α where
  run parser := (look parser, parser)
  uniform parser :=
    .of_look (fun parser => (look parser, 0)) fun limit errors => by rw [blind]

instance : Monad Reading where
  pure value := peek fun _ => value
  bind reading following :=
    { run := fun parser => following (reading parser).1 (reading parser).2
      uniform := fun parser =>
        .bind (fun value => (following value).run) (reading.uniform parser)
          ((following _).uniform _) }

instance : LawfulMonad Reading :=
  LawfulMonad.mk' Reading (fun _ => rfl) (fun _ _ => rfl) (fun _ _ _ => rfl)

theorem bind_apply {α β : Type} (reading : Reading α) (following : α → Reading β)
    (parser : Parser) :
    (reading >>= following) parser = following (reading parser).1 (reading parser).2 := rfl

/-- A reading that is made only when it is run. The recursion of a grammar is then unfolded no
further than the tokens need. -/
def later {α : Type} (reading : Unit → Reading α) : Reading α where
  run parser := reading () parser
  uniform parser := (reading ()).uniform parser

@[simp]
theorem later_eq {α : Type} (reading : Reading α) : (later fun _ => reading) = reading := rfl

def current : Reading Token := peek Parser.current

def currentIs (kind : Kind) : Reading Bool := peek fun parser => parser.currentIs kind

def nextIs (kind : Kind) : Reading Bool := peek fun parser => parser.nextIs kind

def blockFollows : Reading Bool := peek Parser.blockFollows

/-- Takes as many tokens as `span` counts in the tokens ahead. -/
def take (span : List Token → Nat) : Reading (List Token) where
  run parser := (parser.ahead.take (span parser.ahead), parser.skip (span parser.ahead))
  uniform _ :=
    .of_look (fun parser => (parser.ahead.take (span parser.ahead), span parser.ahead))
      fun _ _ => rfl

/-- Drops as many tokens as `span` counts in the tokens ahead. -/
def skip (span : List Token → Nat) : Reading Unit where
  run parser := ((), parser.skip (span parser.ahead))
  uniform _ := .of_look (fun parser => ((), span parser.ahead)) fun _ _ => rfl

/-- Drops the current token. At the end of the input there is none to drop. -/
def advance : Reading Unit := skip fun _ => 1

def reportAt (problem : Problem) (token : Token) : Reading Unit where
  run parser := ((), parser.record problem token)
  uniform parser :=
    ⟨0, [Diagnostic.ofToken problem token], fun _ _ => by simp only [Parser.record_eq_step]⟩

/-- Records a problem at the current token. -/
def report (problem : Problem) : Reading Unit := do
  reportAt problem (← current)

def reportIf (condition : Bool) (problem : Problem) : Reading Unit :=
  if condition then report problem else pure ()

/-- Takes the current token if it is of the kind. -/
def accept (kind : Kind) : Reading Bool := do
  if ← currentIs kind then
    advance
    return true
  else return false

/-- Takes the current token if it spells the word. -/
def acceptWord (word : Bytes) : Reading Bool := do
  if (← current).isWord word then
    advance
    return true
  else return false

/-- Takes a token of the kind, or records the problem. -/
def expect (kind : Kind) (problem : Problem) : Reading Bool := do
  if ← accept kind then return true
  else
    report problem
    return false

/-- Repeats `item` until the current token is in `stop`, and joins what it yields. An item that
took no token is the last. -/
def collectFrom {α : Type} (stop : Token → Bool) (item : Reading (List α)) (parser : Parser) :
    List α × Parser :=
  if stop parser.current then ([], parser)
  else
    let found := item parser
    if found.2.ahead.length < parser.ahead.length then
      let more := collectFrom stop item found.2
      (found.1 ++ more.1, more.2)
    else found
termination_by parser.ahead.length

/-- Repeats `step` on a state until the current token is in `stop`. A step that took no token is
the last. -/
def iterateFrom {σ : Type} (stop : Token → Bool) (step : σ → Reading σ) (state : σ)
    (parser : Parser) : σ × Parser :=
  if stop parser.current then (state, parser)
  else
    let found := step state parser
    if found.2.ahead.length < parser.ahead.length then iterateFrom stop step found.1 found.2
    else found
termination_by parser.ahead.length

theorem collectFrom_uniform {α : Type} (stop : Token → Bool) (item : Reading (List α))
    (parser : Parser) : Uniform (collectFrom stop item) parser := by
  have unfolded : collectFrom stop item = fun parser =>
      if stop parser.current then ([], parser)
      else if (item parser).2.ahead.length < parser.ahead.length then
        ((item parser).1 ++ (collectFrom stop item (item parser).2).1,
          (collectFrom stop item (item parser).2).2)
      else item parser := by
    funext parser
    rw [collectFrom]
  induction parser using (measure fun parser : Parser => parser.ahead.length).wf.induction with
  | h parser ih =>
    rw [unfolded]
    refine .ite (fun _ _ => Iff.rfl) (fun _ => (pure [] : Reading (List α)).uniform parser) ?_
    intro _
    refine .ite (fun limit errors => ?_) (fun shorter => ?_) fun _ => item.uniform parser
    · rw [(item.uniform parser).ahead_eq]
      rfl
    · have joined := fun found => Uniform.bind (fun more parser => (found ++ more, parser))
        (ih _ shorter) ((pure _ : Reading (List α)).uniform _)
      exact .bind (fun found parser =>
        (found ++ (collectFrom stop item parser).1, (collectFrom stop item parser).2))
          (item.uniform parser) (joined _)

theorem iterateFrom_uniform {σ : Type} (stop : Token → Bool) (step : σ → Reading σ) (state : σ)
    (parser : Parser) : Uniform (iterateFrom stop step state) parser := by
  have unfolded : ∀ state, iterateFrom stop step state = fun parser =>
      if stop parser.current then (state, parser)
      else if (step state parser).2.ahead.length < parser.ahead.length then
        iterateFrom stop step (step state parser).1 (step state parser).2
      else step state parser := by
    intro state
    funext parser
    rw [iterateFrom]
  induction parser using (measure fun parser : Parser => parser.ahead.length).wf.induction
    generalizing state with
  | h parser ih =>
    rw [unfolded]
    refine .ite (fun _ _ => Iff.rfl) (fun _ => (pure state : Reading σ).uniform parser) ?_
    intro _
    refine .ite (fun limit errors => ?_) (fun shorter => ?_) fun _ => (step state).uniform parser
    · rw [((step state).uniform parser).ahead_eq]
      rfl
    · exact .bind (iterateFrom stop step) ((step state).uniform parser) (ih _ shorter _)

def collect {α : Type} (stop : Token → Bool) (item : Reading (List α)) : Reading (List α) :=
  ⟨collectFrom stop item, collectFrom_uniform stop item⟩

def iterate {σ : Type} (stop : Token → Bool) (step : σ → Reading σ) (state : σ) : Reading σ :=
  ⟨iterateFrom stop step state, iterateFrom_uniform stop step state⟩

end Reading

end CssSyntax

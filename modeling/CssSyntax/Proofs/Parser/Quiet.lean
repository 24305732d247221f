import CssSyntax.Proofs.Parser.Trace

/-! Readings that find no problem, and what they end with: a result and a parser further on. That
none was found is handed to each step of such a reading, so a step that would report has nothing to
show. The tokens ahead are always the last of a fixed list. -/

namespace CssSyntax.Reading

variable {α β σ : Type}

/-- If the tokens ahead are the last of `tokens`, and no problem is found, the result and the parser
after it are as `ends` says. -/
def Quietly (tokens : List Token) (reading : Reading α) (parser : Parser)
    (ends : α → Parser → Prop) : Prop :=
  parser.ahead <:+ tokens → reading.found parser = [] → ends (reading parser).1 (reading parser).2

namespace Quietly

variable {tokens : List Token} {parser : Parser} {reading : Reading α}
variable {following : α → Reading β} {middle : α → Parser → Prop} {ends : β → Parser → Prop}

theorem bind (near : reading.Quietly tokens parser middle)
    (far : ∀ value after, middle value after → (following value).Quietly tokens after ends) :
    (reading >>= following).Quietly tokens parser ends := by
  intro last quiet
  rw [found_bind] at quiet
  obtain ⟨before, after⟩ := List.append_eq_nil_iff.1 quiet
  exact far _ _ (near last before) ((reading.follows parser).ahead.trans last) after

/-- What comes after a reading that nothing is to be known of. -/
theorem after (far : (following (reading parser).1).Quietly tokens (reading parser).2 ends) :
    (reading >>= following).Quietly tokens parser ends := by
  intro last quiet
  rw [found_bind] at quiet
  exact far ((reading.follows parser).ahead.trans last) (List.append_eq_nil_iff.1 quiet).2

theorem pure {value : β} (is : ends value parser) :
    (Pure.pure value : Reading β).Quietly tokens parser ends :=
  fun _ _ => is

theorem mono {weaker : α → Parser → Prop} (near : reading.Quietly tokens parser middle)
    (step : ∀ value after, middle value after → weaker value after) :
    reading.Quietly tokens parser weaker :=
  fun last quiet => step _ _ (near last quiet)

theorem map {change : α → β} (near : reading.Quietly tokens parser middle)
    (step : ∀ value after, middle value after → ends (change value) after) :
    (change <$> reading).Quietly tokens parser ends :=
  fun last quiet => step _ _ (near last quiet)

/-- Last a change of what was read. -/
theorem returning {change : α → β} (near : reading.Quietly tokens parser middle)
    (step : ∀ value after, middle value after → ends (change value) after) :
    (reading >>= fun found => Pure.pure (change found)).Quietly tokens parser ends :=
  bind near fun value after is => pure (step value after is)

theorem look {seen : Parser → α} {blind}
    (far : (following (seen parser)).Quietly tokens parser ends) :
    (Reading.peek seen blind >>= following).Quietly tokens parser ends :=
  after far

theorem current {following : Token → Reading β}
    (far : (following parser.current).Quietly tokens parser ends) :
    (Reading.current >>= following).Quietly tokens parser ends :=
  after far

theorem ite {condition : Prop} [Decidable condition] {yes no : Reading β}
    (first : condition → yes.Quietly tokens parser ends)
    (second : ¬condition → no.Quietly tokens parser ends) :
    (if condition then yes else no).Quietly tokens parser ends := by
  split
  next holds => exact first holds
  next fails => exact second fails

/-- Where a problem is found, nothing is left to show. -/
theorem of_found (loud : reading.found parser ≠ []) : reading.Quietly tokens parser middle :=
  fun _ quiet => absurd quiet loud

theorem report {problem : Problem} {following : Unit → Reading β} :
    (Reading.report problem >>= following).Quietly tokens parser ends :=
  of_found (by simp [found_bind])

theorem reportAt {problem : Problem} {token : Token} {following : Unit → Reading β} :
    (Reading.reportAt problem token >>= following).Quietly tokens parser ends :=
  of_found (by simp [found_bind])

theorem reportIf {condition : Bool} {problem : Problem} {following : Unit → Reading β}
    (far : condition = false → (following ()).Quietly tokens parser ends) :
    (Reading.reportIf condition problem >>= following).Quietly tokens parser ends := by
  cases condition with
  | true => exact report
  | false => exact after (far rfl)

/-- A required token is there. -/
theorem expect {kind : Kind} {problem : Problem} {following : Bool → Reading β}
    (far : parser.current.kind = kind → (following true).Quietly tokens (parser.skip 1) ends) :
    (Reading.expect kind problem >>= following).Quietly tokens parser ends := by
  rw [expect_bind]
  exact current (ite (fun is => after (far is)) fun _ => report)

theorem accept {kind : Kind} {following : Bool → Reading β}
    (yes : parser.current.kind = kind → (following true).Quietly tokens (parser.skip 1) ends)
    (no : parser.current.kind ≠ kind → (following false).Quietly tokens parser ends) :
    (Reading.accept kind >>= following).Quietly tokens parser ends := by
  apply after
  by_cases is : parser.current.kind = kind
  · rw [accept_of_kind is]
    exact yes is
  · rw [accept_of_other is]
    exact no is

/-- All problems are recorded, so none was found where none is new. -/
theorem holds (quietly : reading.Quietly tokens parser middle) (last : parser.ahead <:+ tokens)
    (unlimited : parser.settings.maxErrors = none)
    (clean : (reading parser).2.errors = parser.errors) :
    middle (reading parser).1 (reading parser).2 := by
  have all := errors_eq reading parser
  rw [unlimited, clean] at all
  exact quietly last (List.self_eq_append_right.1 all)

/-- The tokens ahead are among those of the list. -/
theorem within {reading : Reading α}
    (far : parser.ahead <:+ tokens → reading.Quietly tokens parser middle) :
    reading.Quietly tokens parser middle :=
  fun last => far last last

end Quietly

section Loops

variable {tokens : List Token} {stop : Token → Bool}

/-- How many tokens are ahead. -/
def countAhead : Reading Nat := peek fun parser => parser.ahead.length

/-- A loop compares how many tokens are ahead before an item and after it. -/
theorem collect_eq_compared (stop : Token → Bool) (item : Reading (List α)) :
    collect stop item = (do
      if stop (← Reading.current) then return []
      else
        let before ← countAhead
        let found ← item
        if (← countAhead) < before then
          return found ++ (← collect stop item)
        else return found) := by
  apply Reading.ext
  funext parser
  change collectFrom stop item parser =
    (if stop parser.current then (_ : Reading (List α)) else _) parser
  rw [collectFrom]
  split
  next => rfl
  next =>
    change _ = (if (item parser).2.ahead.length < parser.ahead.length then
      (_ : Reading (List α)) else _) (item parser).2
    dsimp only
    split <;> rfl

theorem iterate_eq_compared (stop : Token → Bool) (step : σ → Reading σ) (state : σ) :
    iterate stop step state = (do
      if stop (← Reading.current) then return state
      else
        let before ← countAhead
        let found ← step state
        if (← countAhead) < before then iterate stop step found
        else return found) := by
  apply Reading.ext
  funext parser
  change iterateFrom stop step state parser =
    (if stop parser.current then (_ : Reading σ) else _) parser
  rw [iterateFrom]
  split
  next => rfl
  next =>
    change _ = (if (step state parser).2.ahead.length < parser.ahead.length then
      (_ : Reading σ) else _) (step state parser).2
    dsimp only
    split <;> rfl

/-- What holds before a loop, and is kept by each item, holds after the loop. -/
theorem collect_quietly {item : Reading (List α)} {invariant : List α → Parser → Prop}
    (items : ∀ found parser, stop parser.current = false → invariant found parser →
      item.Quietly tokens parser fun more after => invariant (found ++ more) after)
    {parser : Parser} (start : invariant [] parser) :
    (collect stop item).Quietly tokens parser invariant := by
  have all : ∀ found, invariant found parser → (collect stop item).Quietly tokens parser
      fun more after => invariant (found ++ more) after := by
    clear start
    induction parser using (measure fun parser : Parser => parser.ahead.length).wf.induction with
    | h parser ih =>
      intro found before
      rw [collect_eq_compared]
      refine .current (.ite (fun _ => ?_) fun going => .look ?_)
      · exact .pure ((List.append_nil found).symm ▸ before)
      · refine .bind (items found parser (by simpa using going) before) ?_
        intro more after kept
        refine .look (.ite (fun shorter => ?_) fun _ => .pure kept)
        refine .returning (ih after shorter _ kept) fun rest last joined => ?_
        rwa [← List.append_assoc]
  exact all [] start

theorem iterate_quietly {step : σ → Reading σ} {invariant : σ → Parser → Prop}
    (steps : ∀ state parser, stop parser.current = false → invariant state parser →
      (step state).Quietly tokens parser invariant)
    {state : σ} {parser : Parser} (start : invariant state parser) :
    (iterate stop step state).Quietly tokens parser invariant := by
  induction parser using (measure fun parser : Parser => parser.ahead.length).wf.induction
    generalizing state with
  | h parser ih =>
    rw [iterate_eq_compared]
    refine .current (.ite (fun _ => .pure start) fun going => .look ?_)
    refine .bind (steps state parser (by simpa using going) start) fun found after kept => ?_
    exact .look (.ite (fun shorter => ih after shorter kept) fun _ => .pure kept)

end Loops

end CssSyntax.Reading

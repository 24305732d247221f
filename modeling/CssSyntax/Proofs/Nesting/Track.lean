import CssSyntax.Proofs.Nesting.Skip

/-! What keeps step with a skip: single tokens, and whatever is put together from readings that keep
step. Nothing is asked of a reading that finds a problem. -/

namespace CssSyntax.Reading

open CssSyntax.Span

variable {α β σ : Type} {parser : Parser}

/-- Without a problem, the skip by `near` from before the reading ends where the skip by `far` from
after it ends. -/
def Tracks (reading : Reading α) (near far : List Token → Nat) (parser : Parser) : Prop :=
  reading.found parser = [] → past near parser.ahead = past far (reading parser).2.ahead

/-- As many brackets are open after the reading as were before it. -/
abbrev Stays {opens closes : Kind} {stops : Token → Bool} (reading : Reading α)
    (skipper : Skipper opens closes stops) (opened : Nat) (parser : Parser) : Prop :=
  reading.Tracks (skipper.level (opened + 1)) (skipper.level (opened + 1)) parser

/-- The reading closes one bracket that was open before it. -/
abbrev Ends {opens closes : Kind} {stops : Token → Bool} (reading : Reading α)
    (skipper : Skipper opens closes stops) (opened : Nat) (parser : Parser) : Prop :=
  reading.Tracks (skipper.level (opened + 1)) (skipper.level opened) parser

namespace Tracks

variable {reading : Reading α} {next : α → Reading β} {near mid far : List Token → Nat}

/-- A problem that is found is a reason not to look further. -/
theorem of_found (loud : reading.found parser ≠ []) : reading.Tracks near far parser :=
  fun quiet => absurd quiet loud

theorem pure {value : α} : (Pure.pure value : Reading α).Tracks near near parser :=
  fun _ => rfl

theorem bind (first : reading.Tracks near mid parser)
    (second : (next (reading parser).1).Tracks mid far (reading parser).2) :
    (reading >>= next).Tracks near far parser := by
  intro quiet
  rw [found_bind] at quiet
  obtain ⟨before, after⟩ := List.append_eq_nil_iff.1 quiet
  exact (first before).trans (second after)

theorem map {change : α → β} (first : reading.Tracks near far parser) :
    (change <$> reading).Tracks near far parser :=
  first

/-- Last a change of what was read. -/
theorem returning {change : α → β} (first : reading.Tracks near far parser) :
    (reading >>= fun found => Pure.pure (change found)).Tracks near far parser :=
  map first

theorem ite {condition : Prop} [Decidable condition] {yes no : Reading α}
    (first : condition → yes.Tracks near far parser)
    (second : ¬condition → no.Tracks near far parser) :
    (if condition then yes else no).Tracks near far parser := by
  split
  next holds => exact first holds
  next fails => exact second fails

theorem look {seen : Parser → α} {blind} (second : (next (seen parser)).Tracks near far parser) :
    (peek seen blind >>= next).Tracks near far parser := by
  intro quiet
  rw [found_look] at quiet
  exact second quiet

theorem current {next : Token → Reading β}
    (second : (next parser.current).Tracks near far parser) :
    (Reading.current >>= next).Tracks near far parser :=
  look second

theorem currentIs {kind : Kind} {next : Bool → Reading β}
    (second : (next (parser.currentIs kind)).Tracks near far parser) :
    (Reading.currentIs kind >>= next).Tracks near far parser :=
  look second

theorem nextIs {kind : Kind} {next : Bool → Reading β}
    (second : (next (parser.nextIs kind)).Tracks near far parser) :
    (Reading.nextIs kind >>= next).Tracks near far parser :=
  look second

theorem report {problem : Problem} {next : Unit → Reading β} :
    (Reading.report problem >>= next).Tracks near far parser := by
  apply of_found
  rw [found_bind]
  exact fun none => List.cons_ne_nil _ _ (List.append_eq_nil_iff.1 none).1

theorem reportAt {problem : Problem} {token : Token} {next : Unit → Reading β} :
    (Reading.reportAt problem token >>= next).Tracks near far parser := by
  apply of_found
  rw [found_bind]
  exact fun none => List.cons_ne_nil _ _ (List.append_eq_nil_iff.1 none).1

theorem reportLast {problem : Problem} : (Reading.report problem).Tracks near far parser :=
  of_found (List.cons_ne_nil _ _)

theorem reportIf {condition : Bool} {problem : Problem} {next : Unit → Reading β}
    (second : (next ()).Tracks near far parser) :
    (Reading.reportIf condition problem >>= next).Tracks near far parser := by
  cases condition with
  | true => exact report
  | false => exact bind pure second

/-- A token that the skip goes over too. -/
theorem advance (steps : Steps near far parser.current) :
    Reading.advance.Tracks near far parser := by
  intro _
  change past near parser.ahead = past far (parser.ahead.drop 1)
  cases split : parser.ahead with
  | nil => rw [List.drop_nil, past_nil, past_nil]
  | cons token rest =>
    have here : parser.current = token := by simp [Parser.current, Parser.nth, split]
    rw [here] at steps
    exact past_cons steps rest

theorem advancing {value : α} (steps : Steps near far parser.current) :
    (do
      Reading.advance
      return value : Reading α).Tracks near far parser :=
  bind (advance steps) pure

/-- A required token is there, or its problem is found. -/
theorem expect {kind : Kind} {problem : Problem} {next : Bool → Reading β}
    (second : parser.current.kind = kind →
      (Reading.advance >>= fun _ => next true).Tracks near far parser) :
    (Reading.expect kind problem >>= next).Tracks near far parser := by
  rw [expect_bind]
  exact current (ite second fun _ => report)

theorem accept {kind : Kind} {next : Bool → Reading β}
    (yes : parser.current.kind = kind →
      (Reading.advance >>= fun _ => next true).Tracks near far parser)
    (no : (next false).Tracks near far parser) :
    (Reading.accept kind >>= next).Tracks near far parser := by
  unfold Reading.accept
  rw [bind_assoc]
  apply currentIs
  by_cases is : parser.current.kind = kind
  · rw [if_pos (currentIs_iff.2 is)]
    exact yes is
  · rw [if_neg fun holds => is (currentIs_iff.1 holds)]
    exact no

theorem skip {span : List Token → Nat}
    (same : past near parser.ahead = past far (parser.ahead.drop (span parser.ahead))) :
    (Reading.skip span).Tracks near far parser :=
  fun _ => same

theorem take {span : List Token → Nat} {next : List Token → Reading β}
    (same : past near parser.ahead = past mid (parser.ahead.drop (span parser.ahead)))
    (second : (next (parser.ahead.take (span parser.ahead))).Tracks mid far
      (parser.skip (span parser.ahead))) :
    (Reading.take span >>= next).Tracks near far parser :=
  fun quiet => same.trans (second quiet)

section Loops

theorem ahead_withErrors (parser : Parser) (limit : Option Nat) (errors : List Diagnostic) :
    (parser.withErrors limit errors).ahead = parser.ahead := rfl

variable {stop : Token → Bool}

/-- A loop that finds no problem finds none in its first item, nor after that. -/
theorem quiet_collect {item : Reading (List α)} (going : stop parser.current = false)
    (quiet : (Reading.collect stop item).found parser = []) :
    item.found parser = [] ∧
      (item.Progresses parser → (Reading.collect stop item).found (item parser).2 = []) := by
  change (collectFrom stop item (parser.withErrors none [])).2.errors = [] at quiet
  -- The loop runs with nothing recorded so far. Its first item leaves there what it finds, and the
  -- rest of the loop adds to that.
  have start : ¬stop (parser.withErrors none []).current = true := Bool.eq_false_iff.1 going
  rw [collectFrom, if_neg start, run_withErrors] at quiet
  dsimp only at quiet
  rw [ahead_withErrors, ahead_withErrors] at quiet
  by_cases progress : item.Progresses parser
  · have all := run_withErrors (Reading.collect stop item) (item parser).2 none
      (capped none [] (item.found parser))
    change collectFrom stop item _ = _ at all
    rw [if_pos (show (item parser).2.ahead.length < _ from progress), all] at quiet
    obtain ⟨first, further⟩ := List.append_eq_nil_iff.1 quiet
    exact ⟨first, fun _ => further⟩
  · rw [if_neg (show ¬(item parser).2.ahead.length < _ from progress)] at quiet
    exact ⟨quiet, fun progresses => absurd progresses progress⟩

theorem collect {item : Reading (List α)}
    (items : ∀ parser, stop parser.current = false → item.Tracks near near parser)
    (parser : Parser) : (Reading.collect stop item).Tracks near near parser := by
  intro quiet
  change past near parser.ahead = past near (collectFrom stop item parser).2.ahead
  -- What a turn finds is found by the loop, so no turn finds a problem.
  fun_induction collectFrom stop item parser with
  | case1 parser stopped => rfl
  | case2 parser going found shorter more ih =>
    obtain ⟨first, further⟩ := quiet_collect (Bool.eq_false_iff.2 going) quiet
    exact (items parser (Bool.eq_false_iff.2 going) first).trans (ih (further shorter))
  | case3 parser going found stuck =>
    obtain ⟨first, _⟩ := quiet_collect (Bool.eq_false_iff.2 going) quiet
    exact items parser (Bool.eq_false_iff.2 going) first

theorem quiet_iterate {step : σ → Reading σ} {state : σ} (going : stop parser.current = false)
    (quiet : (Reading.iterate stop step state).found parser = []) :
    (step state).found parser = [] ∧
      ((step state).Progresses parser →
        (Reading.iterate stop step (step state parser).1).found (step state parser).2 = []) := by
  change (iterateFrom stop step state (parser.withErrors none [])).2.errors = [] at quiet
  have start : ¬stop (parser.withErrors none []).current = true := Bool.eq_false_iff.1 going
  rw [iterateFrom, if_neg start, run_withErrors] at quiet
  dsimp only at quiet
  rw [ahead_withErrors, ahead_withErrors] at quiet
  by_cases progress : (step state).Progresses parser
  · have all := run_withErrors (Reading.iterate stop step (step state parser).1)
      (step state parser).2 none (capped none [] ((step state).found parser))
    change iterateFrom stop step _ _ = _ at all
    rw [if_pos (show (step state parser).2.ahead.length < _ from progress), all] at quiet
    obtain ⟨first, further⟩ := List.append_eq_nil_iff.1 quiet
    exact ⟨first, fun _ => further⟩
  · rw [if_neg (show ¬(step state parser).2.ahead.length < _ from progress)] at quiet
    exact ⟨quiet, fun progresses => absurd progresses progress⟩

theorem iterate {step : σ → Reading σ}
    (steps : ∀ state parser, stop parser.current = false →
      (step state).Tracks near near parser)
    (state : σ) (parser : Parser) :
    (Reading.iterate stop step state).Tracks near near parser := by
  intro quiet
  change past near parser.ahead = past near (iterateFrom stop step state parser).2.ahead
  fun_induction iterateFrom stop step state parser with
  | case1 state parser stopped => rfl
  | case2 state parser going found shorter ih =>
    obtain ⟨first, further⟩ := quiet_iterate (Bool.eq_false_iff.2 going) quiet
    exact (steps state parser (Bool.eq_false_iff.2 going) first).trans (ih (further shorter))
  | case3 state parser going found stuck =>
    obtain ⟨first, _⟩ := quiet_iterate (Bool.eq_false_iff.2 going) quiet
    exact steps state parser (Bool.eq_false_iff.2 going) first

end Loops

end Tracks

end CssSyntax.Reading

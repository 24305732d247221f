import CssSyntax.Proofs.Comments.Bare
import CssSyntax.Proofs.Parser.Trace

/-! Readings that comments do not matter to. Where such a reading finds no problem that a comment
is to blame for, it yields the same without the comments, and finds the same problems. This is used
at each step: a comment where a token is required is a problem, so the reading stands at no comment
there. -/

namespace CssSyntax

open Verbatim

namespace Reading

variable {α β σ : Type} {parser : Parser}

/-- A comment is to blame for a problem of the reading. -/
def Blamed (reading : Reading α) (parser : Parser) : Prop :=
  ¬Blameless parser.ahead (reading.found parser)

/-- If no comment is to blame, the reading of the tokens without comments is the same. -/
def Clear (reading : Reading α) (parser : Parser) : Prop :=
  parser.Commented → Blameless parser.ahead (reading.found parser) → ∀ limit errors,
    reading (parser.bare.withErrors limit errors) =
      ((reading parser).1,
        (reading parser).2.bare.withErrors limit (capped limit errors (reading.found parser)))

/-- The reading drops a comment and nothing else. -/
def Passes (reading : Reading (List α)) (parser : Parser) : Prop :=
  parser.Commented → reading parser = ([], parser.skip 1) ∧ reading.found parser = []

namespace Blamed

variable {reading : Reading α} {next : α → Reading β}

theorem report {problem : Problem} (is : parser.current.kind = .comment) :
    (Reading.report problem).Blamed parser :=
  fun blameless => blameless.plain is

theorem bind_left (first : reading.Blamed parser) : (reading >>= next).Blamed parser := by
  intro blameless
  rw [found_bind] at blameless
  exact first (Blameless.append.1 blameless).1

theorem look {seen : Parser → α} {blind} (far : (next (seen parser)).Blamed parser) :
    (peek seen blind >>= next).Blamed parser := by
  unfold Blamed
  rwa [found_look]

end Blamed

namespace Passes

theorem look {seen : Parser → β} {blind} {next : β → Reading (List α)}
    (far : (next (seen parser)).Passes parser) : (peek seen blind >>= next).Passes parser := by
  intro commented
  rw [found_look]
  exact far commented

theorem current {next : Token → Reading (List α)} (far : (next parser.current).Passes parser) :
    (Reading.current >>= next).Passes parser :=
  look far

theorem drop : (do Reading.advance; return [] : Reading (List α)).Passes parser :=
  fun _ => ⟨rfl, rfl⟩

theorem map {reading : Reading (List α)} {change : α → β} (first : reading.Passes parser) :
    (do return (← reading).map change : Reading (List β)).Passes parser := by
  intro commented
  obtain ⟨run, none⟩ := first commented
  rw [found_bind, none, bind_apply, run]
  exact ⟨rfl, rfl⟩

theorem ite {condition : Prop} [Decidable condition] {yes no : Reading (List α)}
    (first : condition → yes.Passes parser) (second : ¬condition → no.Passes parser) :
    (if condition then yes else no).Passes parser := by
  split
  next holds => exact first holds
  next fails => exact second fails

end Passes

namespace Clear

variable {reading : Reading α} {next : α → Reading β}

/-- A comment that is to blame is a reason not to look further. -/
theorem of_blamed (blamed : reading.Blamed parser) : reading.Clear parser :=
  fun _ blameless => absurd blameless blamed

theorem of_quiet (quiet : reading.found parser = [])
    (same : parser.Commented → ∀ limit errors, reading (parser.bare.withErrors limit errors) =
      ((reading parser).1, (reading parser).2.bare.withErrors limit errors)) :
    reading.Clear parser := by
  intro commented _ limit errors
  rw [quiet, capped_nil]
  exact same commented limit errors

theorem of_commented {reading : Reading α} (far : parser.Commented → reading.Clear parser) :
    reading.Clear parser :=
  fun commented => far commented commented

/-- What was recorded before does not matter either. -/
theorem withErrors (clear : reading.Clear parser) (limit : Option Nat)
    (errors : List Diagnostic) : reading.Clear (parser.withErrors limit errors) := by
  intro commented blameless further more
  have same : parser.Commented :=
    ⟨commented.dropped, commented.laid, commented.calls, commented.families⟩
  rw [run_withErrors reading parser limit errors]
  exact clear same blameless further more

theorem pure {value : α} : (Pure.pure value : Reading α).Clear parser :=
  of_quiet rfl fun _ _ _ => rfl

theorem bind (first : reading.Clear parser)
    (second : (next (reading parser).1).Clear (reading parser).2) :
    (reading >>= next).Clear parser := by
  intro commented blameless limit errors
  rw [found_bind] at blameless ⊢
  obtain ⟨before, after⟩ := Blameless.append.1 blameless
  have follows := reading.follows parser
  have later := second (commented.of_follows follows) (after.suffix follows.ahead)
  rw [bind_apply, first commented before, later, capped_append]
  rfl

theorem map {change : α → β} (first : reading.Clear parser) :
    (change <$> reading).Clear parser := by
  intro commented blameless limit errors
  exact congrArg (fun found => (change found.1, found.2)) (first commented blameless limit errors)

theorem returning {change : α → β} (first : reading.Clear parser) :
    (do return change (← reading) : Reading β).Clear parser :=
  bind first pure

theorem ite {condition : Prop} [Decidable condition] {yes no : Reading α}
    (first : condition → yes.Clear parser) (second : ¬condition → no.Clear parser) :
    (if condition then yes else no).Clear parser := by
  split
  next holds => exact first holds
  next fails => exact second fails

/-- A look that may show something else without the comments, as long as it is not used. -/
theorem look_of {seen : Parser → α} {blind}
    (same : parser.Commented → next (seen parser.bare) = next (seen parser))
    (far : (next (seen parser)).Clear parser) : (peek seen blind >>= next).Clear parser := by
  intro commented blameless limit errors
  rw [found_look] at blameless ⊢
  change next (seen (parser.bare.withErrors limit errors)) _ = _
  rw [blind, same commented]
  exact far commented blameless limit errors

/-- A look that shows the same without the comments. -/
theorem look {seen : Parser → α} {blind} (same : parser.Commented → seen parser.bare = seen parser)
    (far : (next (seen parser)).Clear parser) : (peek seen blind >>= next).Clear parser :=
  look_of (fun commented => congrArg next (same commented)) far

theorem current {next : Token → Reading β} (plain : parser.current.kind ≠ .comment)
    (far : (next parser.current).Clear parser) : (Reading.current >>= next).Clear parser :=
  look (fun _ => Parser.current_bare plain) far

theorem currentIs {kind : Kind} {next : Bool → Reading β} (plain : parser.current.kind ≠ .comment)
    (far : (next (parser.currentIs kind)).Clear parser) :
    (Reading.currentIs kind >>= next).Clear parser :=
  look (fun _ => Parser.currentIs_bare plain kind) far

/-- A look at a token where a comment is a problem. -/
theorem check {next : Token → Reading β}
    (blamed : parser.current.kind = .comment → (next parser.current).Blamed parser)
    (far : parser.current.kind ≠ .comment → (next parser.current).Clear parser) :
    (Reading.current >>= next).Clear parser := by
  by_cases comment : parser.current.kind = .comment
  · exact of_blamed (.look (blamed comment))
  · exact current comment (far comment)

theorem checkIs {kind : Kind} {next : Bool → Reading β} (other : kind ≠ .comment)
    (blamed : parser.current.kind = .comment → (next false).Blamed parser)
    (far : parser.current.kind ≠ .comment → (next (parser.currentIs kind)).Clear parser) :
    (Reading.currentIs kind >>= next).Clear parser := by
  by_cases comment : parser.current.kind = .comment
  · have differs : parser.currentIs kind = false :=
      beq_eq_false_iff_ne.2 fun is => other (is.symm.trans comment)
    exact of_blamed (.look (differs ▸ blamed comment))
  · exact currentIs comment (far comment)

theorem reportAtLast {problem : Problem} {token : Token} :
    (Reading.reportAt problem token).Clear parser := by
  intro _ _ limit errors
  change ((), (parser.bare.withErrors limit errors).record problem token) =
    ((), (parser.record problem token).bare.withErrors limit _)
  rw [Parser.record_eq_step, Parser.record_eq_step, Parser.withErrors_step]
  rfl

/-- After a problem at a token that was met before, the reading goes on where it was. -/
theorem reportAt {problem : Problem} {token : Token} {next : Unit → Reading β}
    (far : (next ()).Clear parser) : (Reading.reportAt problem token >>= next).Clear parser := by
  refine bind reportAtLast ?_
  change (next ()).Clear (parser.record problem token)
  rw [Parser.record_eq_step]
  exact far.withErrors _ _

theorem report {problem : Problem} {next : Unit → Reading β}
    (far : parser.current.kind ≠ .comment → (next ()).Clear parser) :
    (Reading.report problem >>= next).Clear parser := by
  by_cases comment : parser.current.kind = .comment
  · exact of_blamed (.bind_left (.report comment))
  · rw [Reading.report, bind_assoc]
    exact current comment (reportAt (far comment))

theorem reportLast {problem : Problem} : (Reading.report problem).Clear parser :=
  check (fun is => .report is) fun _ => reportAtLast

theorem reportIf {condition : Bool} {problem : Problem} {next : Unit → Reading β}
    (far : (next ()).Clear parser) :
    (Reading.reportIf condition problem >>= next).Clear parser := by
  cases condition with
  | true => exact report fun _ => far
  | false => exact far

theorem reportIfLast {condition : Bool} {problem : Problem} :
    (Reading.reportIf condition problem).Clear parser := by
  cases condition with
  | true => exact reportLast
  | false => exact pure

theorem advance (plain : parser.current.kind ≠ .comment) : Reading.advance.Clear parser := by
  refine of_quiet rfl fun _ limit errors => ?_
  exact congrArg (fun after : Parser => ((), after.withErrors limit errors))
    (Parser.skip_bare plain).symm

/-- Past a token that is no comment. -/
theorem step {next : Unit → Reading β} (plain : parser.current.kind ≠ .comment)
    (far : (next ()).Clear (parser.skip 1)) : (Reading.advance >>= next).Clear parser :=
  bind (advance plain) far

theorem skip {span : List Token → Nat} (clear : parser.Commented → Span.Clear span parser.ahead) :
    (Reading.skip span).Clear parser := by
  refine of_quiet rfl fun commented limit errors => ?_
  change ((), (parser.bare.skip (span parser.bare.ahead)).withErrors limit errors) = _
  unfold Parser.skip Parser.bare
  dsimp only
  rw [(clear commented).drop_eq]
  rfl

theorem take {span : List Token → Nat} {next : List Token → Reading β}
    (clear : parser.Commented → Span.Clear span parser.ahead)
    (blind : next (kept (parser.ahead.take (span parser.ahead))) =
      next (parser.ahead.take (span parser.ahead)))
    (far : (next (parser.ahead.take (span parser.ahead))).Clear
      (parser.skip (span parser.ahead))) : (Reading.take span >>= next).Clear parser := by
  intro commented blameless limit errors
  rw [found_bind, found_take, List.nil_append] at blameless ⊢
  have follows := (Reading.take span).follows parser
  have later := far (commented.of_follows follows) (blameless.suffix follows.ahead) limit errors
  change next (parser.bare.ahead.take (span parser.bare.ahead))
    ((parser.bare.skip (span parser.bare.ahead)).withErrors limit errors) = _
  unfold Parser.skip Parser.bare
  dsimp only
  rw [(clear commented).drop_eq, (clear commented).take_eq, blind]
  exact later

theorem skipBlock : Reading.skipBlock.Clear parser := skip fun _ => Span.block_clear 0

theorem skipDeclaration : Reading.skipDeclaration.Clear parser :=
  skip fun _ => Span.declaration_clear

theorem skipGroup : Reading.skipGroup.Clear parser := skip fun _ => Span.group_clear 0

theorem skipAtRule : Reading.skipAtRule.Clear parser := skip fun _ => Span.atRule_clear 0

theorem skipComments : Reading.skipComments.Clear parser := skip fun _ => Span.comments_clear

/-- After the comments that are skipped there is another token. -/
theorem current_skipComments (parser : Parser) :
    (Reading.skipComments parser).2.current.kind ≠ .comment := by
  have stopped : (fun token : Token => token.kind != .comment)
      (Reading.skipComments parser).2.current = true :=
    @Grammar.skip_before_stops parser (fun token => token.kind != .comment) fun _ => rfl
  exact bne_iff_ne.1 stopped

theorem pastComments {next : Unit → Reading β}
    (far : ∀ after : Parser, after.current.kind ≠ .comment → (next ()).Clear after) :
    (Reading.skipComments >>= next).Clear parser :=
  bind skipComments (far _ (current_skipComments parser))

theorem accept {kind : Kind} {next : Bool → Reading β} (plain : parser.current.kind ≠ .comment)
    (yes : (next true).Clear (parser.skip 1)) (no : (next false).Clear parser) :
    (Reading.accept kind >>= next).Clear parser := by
  refine bind (currentIs plain (ite (fun _ => step plain pure) fun _ => pure)) ?_
  by_cases is : parser.current.kind = kind
  · rw [accept_of_kind is]
    exact yes
  · rw [accept_of_other is]
    exact no

/-- A word may be taken or left: what comes next has to read on from both places. -/
theorem acceptWord {word : Bytes} {next : Bool → Reading β}
    (plain : parser.current.kind ≠ .comment) (yes : (next true).Clear (parser.skip 1))
    (no : (next false).Clear parser) : (Reading.acceptWord word >>= next).Clear parser := by
  refine bind (current plain (ite (fun _ => step plain pure) fun _ => pure)) ?_
  have run : Reading.acceptWord word parser =
      if parser.current.isWord word = true then (true, parser.skip 1) else (false, parser) := by
    change (if parser.current.isWord word = true then _ else _ : Reading Bool) parser = _
    split <;> rfl
  rw [run]
  split
  next => exact yes
  next => exact no

/-- A token that is required is there, or there is a problem at what stands in its place. -/
theorem require {kind : Kind} {problem : Problem} {yes : Token → Reading β}
    {no : Unit → Reading β} (other : kind ≠ .comment)
    (found : parser.current.kind = kind → (yes parser.current).Clear parser)
    (missing : parser.current.kind ≠ .comment → (no ()).Clear parser) :
    (Reading.current >>= fun token =>
      if token.kind = kind then yes token else Reading.report problem >>= no).Clear parser := by
  refine check (fun comment => ?_) fun _ => ite found fun _ => report missing
  rw [if_neg fun is => other (is.symm.trans comment)]
  exact .bind_left (.report comment)

theorem expect {kind : Kind} {problem : Problem} {next : Bool → Reading β}
    (other : kind ≠ .comment)
    (yes : parser.current.kind = kind → (next true).Clear (parser.skip 1))
    (no : parser.current.kind ≠ .comment → (next false).Clear parser) :
    (Reading.expect kind problem >>= next).Clear parser := by
  rw [expect_bind]
  exact require other (fun is => step (is ▸ other) (yes is)) no

section Loops

variable {stop : Token → Bool} {item : Reading (List α)}

/-- A loop, given what its parsers are known to be before each turn. Without the comments it takes
a turn less for each comment that a turn only drops. -/
theorem collect_of (before : Parser → Prop) (advances : Advances stop item)
    (stopped : ∀ parser, before parser → stop parser.current = true →
      parser.current.kind ≠ .comment)
    (comments : ∀ parser, before parser → parser.current.kind = .comment → item.Passes parser)
    (items : ∀ parser, before parser → parser.current.kind ≠ .comment →
      stop parser.current = false →
        Blameless parser.ahead ((Reading.collect stop item).found (item parser).2) →
          item.Clear parser)
    (turn : ∀ parser, before parser → stop parser.current = false → before (item parser).2)
    (parser : Parser) (start : before parser) : (Reading.collect stop item).Clear parser := by
  induction parser using (measure fun parser : Parser => parser.ahead.length).wf.induction with
  | h parser ih =>
    cases going : stop parser.current with
    | true =>
      have plain := stopped parser start going
      rw [collect_eq advances]
      exact current plain (ite (fun _ => pure) fun goes => absurd going goes)
    | false =>
      intro commented blameless limit errors
      rw [found_collect_step advances going] at blameless ⊢
      obtain ⟨first, further⟩ := Blameless.append.1 blameless
      have follows := item.follows parser
      have later := ih _ (advances parser going) (turn parser start going)
        (commented.of_follows follows) (further.suffix follows.ahead) limit
      rw [collect_step advances going]
      by_cases comment : parser.current.kind = .comment
      · -- The turn drops the comment, so the loop without comments already stands behind it.
        obtain ⟨run, none⟩ := comments parser start comment commented
        rw [run] at later ⊢
        rw [none]
        dsimp only at later ⊢
        rw [Parser.skip_bare_comment comment] at later
        exact later errors
      · have goes : stop (parser.bare.withErrors limit errors).current = false := by
          change stop parser.bare.current = false
          rw [Parser.current_bare comment]
          exact going
        rw [collect_step advances goes,
          items parser start comment going further commented first limit errors]
        dsimp only
        rw [later, capped_append]

theorem current_collect (advances : Advances stop item)
    (passes : ∀ token, token.kind = .comment → stop token = false) (parser : Parser) :
    (Reading.collect stop item parser).2.current.kind ≠ .comment := fun is =>
  Bool.false_ne_true ((passes _ is).symm.trans (collect_stops advances parser))

/-- A loop that comments do not end. -/
theorem collect (advances : Advances stop item)
    (passes : ∀ token, token.kind = .comment → stop token = false)
    (comments : ∀ parser : Parser, parser.current.kind = .comment → item.Passes parser)
    (items : ∀ parser : Parser, parser.current.kind ≠ .comment → stop parser.current = false →
      item.Clear parser)
    (parser : Parser) : (Reading.collect stop item).Clear parser := by
  refine collect_of (fun _ => True) advances (fun parser _ stopped comment => ?_)
    (fun parser _ => comments parser) (fun parser _ plain going _ => items parser plain going)
    (fun _ _ _ => trivial) parser trivial
  exact Bool.false_ne_true ((passes _ comment).symm.trans stopped)

/-- A loop whose turns never stop at a comment. -/
theorem collect_plain (advances : Advances stop item)
    (items : ∀ parser : Parser, parser.current.kind ≠ .comment → stop parser.current = false →
      item.Clear parser)
    (turn : ∀ parser : Parser, stop parser.current = false →
      (item parser).2.current.kind ≠ .comment)
    (plain : parser.current.kind ≠ .comment) : (Reading.collect stop item).Clear parser :=
  collect_of (fun parser => parser.current.kind ≠ .comment) advances (fun _ plain _ => plain)
    (fun _ plain comment => absurd comment plain)
    (fun parser _ plain going _ => items parser plain going) (fun parser _ => turn parser) parser
    plain

/-- A loop on a state, where a comment is a problem. -/
theorem iterate {step : σ → Reading σ} (advances : ∀ state, Advances stop (step state))
    (passes : ∀ token, token.kind = .comment → stop token = false)
    (comments : ∀ state (parser : Parser), parser.current.kind = .comment →
      (step state).Blamed parser)
    (steps : ∀ state (parser : Parser), parser.current.kind ≠ .comment →
      stop parser.current = false → (step state).Clear parser)
    (state : σ) (parser : Parser) : (Reading.iterate stop step state).Clear parser := by
  induction parser using (measure fun parser : Parser => parser.ahead.length).wf.induction
    generalizing state with
  | h parser ih =>
    rw [iterate_eq advances]
    refine check (fun comment => ?_) fun plain => ite (fun _ => pure) fun going => ?_
    · rw [if_neg (Bool.eq_false_iff.1 (passes _ comment))]
      exact .bind_left (comments state parser comment)
    · have goes : stop parser.current = false := Bool.eq_false_iff.2 going
      exact bind (steps state parser plain goes) (ih _ (advances state parser goes) _)

end Loops

end Clear

end Reading

end CssSyntax

import CssSyntax.Proofs.Parser.Motion

/-! What a reading leaves behind: the tokens that it takes and the problems that it finds. Neither
depends on how many problems may be recorded, and those of two readings in a row are put one after
the other. -/

namespace CssSyntax.Reading

variable {α β : Type}

def taken (reading : Reading α) (parser : Parser) : List Token :=
  parser.ahead.take (parser.ahead.length - (reading parser).2.ahead.length)

/-- The problems that a reading finds, also those that are too many to be recorded. -/
def found (reading : Reading α) (parser : Parser) : List Diagnostic :=
  (reading (parser.withErrors none [])).2.errors

section Taken

variable {reading : Reading α} {parser : Parser}

theorem taken_append (reading : Reading α) (parser : Parser) :
    reading.taken parser ++ (reading parser).2.ahead = parser.ahead := by
  obtain ⟨front, split⟩ := (reading.follows parser).ahead
  unfold taken
  rw [← split, List.length_append, Nat.add_sub_cancel, List.take_left]

theorem taken_eq {front : List Token} (split : front ++ (reading parser).2.ahead = parser.ahead) :
    reading.taken parser = front :=
  List.append_cancel_right ((taken_append reading parser).trans split.symm)

theorem taken_bind (reading : Reading α) (following : α → Reading β) (parser : Parser) :
    (reading >>= following).taken parser =
      reading.taken parser ++ (following (reading parser).1).taken (reading parser).2 := by
  apply taken_eq
  rw [bind_apply, List.append_assoc, taken_append, taken_append]

@[simp]
theorem taken_peek (look : Parser → α) (blind) (parser : Parser) :
    (peek look blind).taken parser = [] :=
  taken_eq rfl

@[simp]
theorem taken_map (change : α → β) (reading : Reading α) (parser : Parser) :
    (change <$> reading).taken parser = reading.taken parser := rfl

@[simp]
theorem taken_pure (value : α) (parser : Parser) : (pure value : Reading α).taken parser = [] :=
  taken_eq rfl

theorem taken_current (following : Token → Reading β) (parser : Parser) :
    (current >>= following).taken parser = (following parser.current).taken parser := by
  have none : current.taken parser = [] := taken_peek ..
  rw [taken_bind, none]
  rfl

@[simp]
theorem taken_skip (span : List Token → Nat) (parser : Parser) :
    (skip span).taken parser = parser.ahead.take (span parser.ahead) :=
  taken_eq (List.take_append_drop _ _)

theorem taken_advance (notEnd : parser.current.kind ≠ .eof) :
    advance.taken parser = [parser.current] := by
  obtain ⟨rest, split⟩ := Parser.ahead_eq_cons notEnd
  unfold advance
  rw [taken_skip, split]
  rfl

@[simp]
theorem taken_take (span : List Token → Nat) (parser : Parser) :
    (take span).taken parser = parser.ahead.take (span parser.ahead) :=
  taken_eq (List.take_append_drop _ _)

@[simp]
theorem taken_report (problem : Problem) (parser : Parser) :
    (report problem).taken parser = [] := by
  apply taken_eq
  rw [ahead_report]
  rfl

@[simp]
theorem taken_withErrors (reading : Reading α) (parser : Parser) (limit : Option Nat)
    (errors : List Diagnostic) :
    reading.taken (parser.withErrors limit errors) = reading.taken parser := by
  unfold taken
  rw [(reading.uniform parser).ahead_eq]
  rfl

end Taken

section Found

/-- The diagnostics after a reading are those before it and what it finds, up to the limit. -/
theorem run_withErrors (reading : Reading α) (parser : Parser) (limit : Option Nat)
    (errors : List Diagnostic) :
    reading (parser.withErrors limit errors) =
      ((reading parser).1,
        (reading parser).2.withErrors limit (capped limit errors (reading.found parser))) := by
  obtain ⟨count, problems, _, same⟩ := (reading.uniform parser).run_eq
  have all : reading.found parser = problems := by
    unfold found
    rw [same]
    exact List.nil_append _
  rw [same, all]

theorem errors_eq (reading : Reading α) (parser : Parser) :
    (reading parser).2.errors =
      capped parser.settings.maxErrors parser.errors (reading.found parser) := by
  conv => lhs; rw [← parser.withErrors_self, run_withErrors]
  rfl

@[simp]
theorem found_withErrors (reading : Reading α) (parser : Parser) (limit : Option Nat)
    (errors : List Diagnostic) :
    reading.found (parser.withErrors limit errors) = reading.found parser := rfl

theorem found_bind (reading : Reading α) (following : α → Reading β) (parser : Parser) :
    (reading >>= following).found parser =
      reading.found parser ++ (following (reading parser).1).found (reading parser).2 := by
  change (following (reading (parser.withErrors none [])).1
    (reading (parser.withErrors none [])).2).2.errors = _
  rw [run_withErrors, run_withErrors]
  rfl

@[simp]
theorem found_map (change : α → β) (reading : Reading α) (parser : Parser) :
    (change <$> reading).found parser = reading.found parser := rfl

@[simp]
theorem found_peek (look : Parser → α) (blind) (parser : Parser) :
    (peek look blind).found parser = [] := rfl

theorem found_look {look : Parser → α} {blind} (following : α → Reading β) (parser : Parser) :
    (peek look blind >>= following).found parser = (following (look parser)).found parser :=
  found_bind ..

theorem found_current (following : Token → Reading β) (parser : Parser) :
    (current >>= following).found parser = (following parser.current).found parser :=
  found_bind ..

@[simp]
theorem found_skip (span : List Token → Nat) (parser : Parser) :
    (skip span).found parser = [] := rfl

@[simp]
theorem found_take (span : List Token → Nat) (parser : Parser) :
    (take span).found parser = [] := rfl

@[simp]
theorem found_reportAt (problem : Problem) (token : Token) (parser : Parser) :
    (reportAt problem token).found parser = [Diagnostic.ofToken problem token] := rfl

@[simp]
theorem found_report (problem : Problem) (parser : Parser) :
    (report problem).found parser = [Diagnostic.ofToken problem parser.current] := rfl

end Found

section Loops

variable {parser : Parser} {stop : Token → Bool} {item : Reading (List α)}

theorem collect_stopped (stopped : stop parser.current = true) :
    collect stop item parser = ([], parser) := by
  change collectFrom stop item parser = _
  rw [collectFrom, if_pos stopped]

theorem collect_step (advances : Advances stop item) (going : stop parser.current = false) :
    collect stop item parser =
      ((item parser).1 ++ (collect stop item (item parser).2).1,
        (collect stop item (item parser).2).2) := by
  conv => lhs; rw [collect_eq advances]
  change (if stop parser.current = true then _ else _ : Reading (List α)) parser = _
  rw [if_neg (Bool.eq_false_iff.1 going)]
  rfl

theorem found_collect_step (advances : Advances stop item) (going : stop parser.current = false) :
    (collect stop item).found parser =
      item.found parser ++ (collect stop item).found (item parser).2 := by
  conv => lhs; rw [collect_eq advances, found_bind]
  change (if stop parser.current = true then _ else _ : Reading (List α)).found parser = _
  rw [if_neg (Bool.eq_false_iff.1 going), found_bind, found_bind]
  exact congrArg _ (List.append_nil _)

/-- What relates the place where a loop stops to itself, and is extended by each item to the front,
relates the place where it starts to the one where it stops. -/
theorem collect_induction {relation : List α → List Diagnostic → Parser → Parser → Prop}
    (advances : Advances stop item)
    (stopped : ∀ parser, stop parser.current = true → relation [] [] parser parser)
    (step : ∀ parser found problems last, stop parser.current = false →
      relation found problems (item parser).2 last →
        relation ((item parser).1 ++ found) (item.found parser ++ problems) parser last)
    (parser : Parser) :
    relation (collect stop item parser).1 ((collect stop item).found parser) parser
      (collect stop item parser).2 := by
  induction parser using (measure fun parser : Parser => parser.ahead.length).wf.induction with
  | h parser ih =>
    by_cases stops : stop parser.current = true
    · have here : stop (parser.withErrors none []).current = true := stops
      have none : (collect stop item).found parser = [] := by
        unfold found
        rw [collect_stopped here]
        rfl
      rw [none, collect_stopped stops]
      exact stopped parser stops
    · have going : stop parser.current = false := Bool.eq_false_iff.2 stops
      rw [collect_step advances going, found_collect_step advances going]
      exact step parser _ _ _ going (ih _ (advances parser going))

variable {σ : Type} {step : σ → Reading σ} {state : σ}

theorem iterate_stopped (stopped : stop parser.current = true) :
    iterate stop step state parser = (state, parser) := by
  change iterateFrom stop step state parser = _
  rw [iterateFrom, if_pos stopped]

theorem iterate_step (advances : ∀ state, Advances stop (step state))
    (going : stop parser.current = false) :
    iterate stop step state parser =
      iterate stop step (step state parser).1 (step state parser).2 := by
  conv => lhs; rw [iterate_eq advances]
  change (if stop parser.current = true then _ else _ : Reading σ) parser = _
  rw [if_neg (Bool.eq_false_iff.1 going)]
  rfl

end Loops

end CssSyntax.Reading

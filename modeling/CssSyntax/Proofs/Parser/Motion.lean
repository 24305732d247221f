import CssSyntax.Parser.Span

/-! How a reading moves a parser. It goes forward only, and a reading that takes a token at every
place outside the stop set of a loop ends that loop at a token of the stop set. -/

namespace CssSyntax

theorem ofTokens_eq (settings : Settings) (front : List Token) (position : Position) :
    Parser.ofTokens settings (front ++ [Token.endOfInput position]) =
      ⟨settings, front, position, []⟩ := by
  unfold Parser.ofTokens
  rw [List.getLast?_append]
  simp [Token.endOfInput]

namespace Parser

/-- `after` stands where `before` stood or further on. -/
structure Follows (before after : Parser) : Prop where
  settings : after.settings = before.settings
  finish : after.finish = before.finish
  ahead : after.ahead <:+ before.ahead
  errors : before.errors <+: after.errors

namespace Follows

theorem length_le {before after : Parser} (follows : before.Follows after) :
    after.ahead.length ≤ before.ahead.length :=
  follows.ahead.length_le

/-- Only the diagnostics can differ while no token is taken. -/
theorem eq_withErrors {before after : Parser} (follows : before.Follows after)
    (same : after.ahead = before.ahead) :
    after = before.withErrors before.settings.maxErrors after.errors := by
  obtain ⟨settings, ahead, finish, errors⟩ := after
  obtain rfl : settings = before.settings := follows.settings
  obtain rfl : ahead = before.ahead := same
  obtain rfl : finish = before.finish := follows.finish
  rfl

end Follows

theorem step_follows (parser : Parser) (count : Nat) (found : List Diagnostic) :
    parser.Follows (parser.step count found) where
  settings := rfl
  finish := rfl
  ahead := List.drop_suffix _ _
  errors := by
    unfold step capped
    dsimp only
    split <;> exact List.prefix_append _ _

theorem ahead_eq_cons {parser : Parser} (notEnd : parser.current.kind ≠ .eof) :
    ∃ rest, parser.ahead = parser.current :: rest := by
  cases split : parser.ahead with
  | nil => simp [current, nth, split, Token.endOfInput] at notEnd
  | cons token rest => exact ⟨rest, by simp [current, nth, split]⟩

theorem ahead_eq_skip {parser : Parser} (notEnd : parser.current.kind ≠ .eof) :
    parser.ahead = parser.current :: (parser.skip 1).ahead := by
  obtain ⟨settings, ahead, finish, errors⟩ := parser
  cases ahead with
  | nil => exact absurd rfl notEnd
  | cons token rest => rfl

end Parser

namespace Reading

variable {α β σ : Type}

theorem follows (reading : Reading α) (parser : Parser) : parser.Follows (reading parser).2 := by
  obtain ⟨count, found, own, _⟩ := (reading.uniform parser).run_eq
  rw [own]
  exact parser.step_follows count found

/-- The reading takes at least one token from here. -/
def Progresses (reading : Reading α) (parser : Parser) : Prop :=
  (reading parser).2.ahead.length < parser.ahead.length

/-- A reading takes a token, or it leaves the parser where it is with more diagnostics. -/
theorem moves_or_stays (reading : Reading α) (parser : Parser) :
    reading.Progresses parser ∨
      ∃ errors, (reading parser).2 = parser.withErrors parser.settings.maxErrors errors := by
  have follows := reading.follows parser
  by_cases moves : (reading parser).2.ahead.length < parser.ahead.length
  · exact .inl moves
  · have sameLength := Nat.le_antisymm follows.length_le (Nat.not_lt.1 moves)
    exact .inr ⟨_, follows.eq_withErrors (follows.ahead.eq_of_length sameLength)⟩

namespace Progresses

variable {parser : Parser}

theorem bind_left {reading : Reading α} {following : α → Reading β}
    (first : reading.Progresses parser) : (reading >>= following).Progresses parser :=
  Nat.lt_of_le_of_lt ((following _).follows _).length_le first

theorem bind_right {reading : Reading α} {following : α → Reading β}
    (second : (following (reading parser).1).Progresses (reading parser).2) :
    (reading >>= following).Progresses parser :=
  Nat.lt_of_lt_of_le second (reading.follows parser).length_le

theorem map {reading : Reading α} {change : α → β} (first : reading.Progresses parser) :
    (change <$> reading).Progresses parser :=
  first

theorem ite {condition : Prop} [Decidable condition] {yes no : Reading α}
    (first : condition → yes.Progresses parser) (second : ¬condition → no.Progresses parser) :
    (if condition then yes else no).Progresses parser := by
  split
  · next holds => exact first holds
  · next fails => exact second fails

/-- What stays in its place leaves the tokens to what comes after it. -/
theorem bind {reading : Reading α} {following : α → Reading β}
    (second : (following (reading parser).1).Progresses parser) :
    (reading >>= following).Progresses parser := by
  rcases reading.moves_or_stays parser with moves | ⟨errors, stays⟩
  · exact bind_left moves
  · refine bind_right ?_
    unfold Progresses at second ⊢
    rw [stays, ((following _).uniform parser).ahead_eq]
    exact second

theorem peek {look : Parser → α} {blind} {following : α → Reading β}
    (second : (following (look parser)).Progresses parser) :
    (Reading.peek look blind >>= following).Progresses parser :=
  second

theorem current {following : Token → Reading β}
    (second : (following parser.current).Progresses parser) :
    (Reading.current >>= following).Progresses parser :=
  peek second

theorem currentIs {kind : Kind} {following : Bool → Reading β}
    (second : (following (parser.currentIs kind)).Progresses parser) :
    (Reading.currentIs kind >>= following).Progresses parser :=
  peek second

/-- A reading that ends at a token of a set, and starts at one that is not in it, has moved. -/
theorem of_stop {reading : Reading α} {stop : Token → Bool}
    (going : stop parser.current = false) (stopped : stop (reading parser).2.current = true) :
    reading.Progresses parser := by
  rcases reading.moves_or_stays parser with moves | ⟨errors, stays⟩
  · exact moves
  · rw [stays] at stopped
    exact absurd (going.symm.trans stopped) Bool.false_ne_true

end Progresses

section Accept

variable {kind : Kind} {parser : Parser}

theorem currentIs_iff : parser.currentIs kind = true ↔ parser.current.kind = kind :=
  beq_iff_eq

theorem nextIs_iff : parser.nextIs kind = true ↔ parser.next.kind = kind :=
  beq_iff_eq

theorem accept_of_kind (is : parser.current.kind = kind) :
    accept kind parser = (true, (advance parser).2) := by
  change (if parser.currentIs kind = true then _ else _ : Reading Bool) parser = _
  rw [if_pos (currentIs_iff.2 is)]
  rfl

theorem accept_of_other (other : parser.current.kind ≠ kind) :
    accept kind parser = (false, parser) := by
  change (if parser.currentIs kind = true then _ else _ : Reading Bool) parser = _
  rw [if_neg fun holds => other (currentIs_iff.1 holds)]
  rfl

theorem expect_of_kind {problem : Problem} (is : parser.current.kind = kind) :
    expect kind problem parser = (true, (advance parser).2) := by
  change (if (accept kind parser).1 = true then _ else _ : Reading Bool) _ = _
  rw [accept_of_kind is]
  rfl

theorem expect_of_other {problem : Problem} (other : parser.current.kind ≠ kind) :
    expect kind problem parser = (false, (report problem parser).2) := by
  change (if (accept kind parser).1 = true then _ else _ : Reading Bool) _ = _
  rw [accept_of_other other]
  rfl

/-- What comes after a required token comes after it, or after the problem that it is missing. -/
theorem expect_bind {problem : Problem} {following : Bool → Reading α} :
    expect kind problem >>= following = (do
      if (← current).kind = kind then
        advance
        following true
      else
        report problem
        following false) := by
  apply Reading.ext
  funext parser
  change _ = (if parser.current.kind = kind then (_ : Reading α) else _) parser
  rw [bind_apply]
  split
  next is =>
    rw [expect_of_kind is]
    rfl
  next other =>
    rw [expect_of_other other]
    rfl

end Accept

theorem current_apply (following : Token → Reading α) (parser : Parser) :
    (current >>= following) parser = following parser.current parser := rfl

theorem current_advance (parser : Parser) : (advance parser).2.current = parser.next := by
  change ((parser.ahead.drop 1)[0]?).getD _ = (parser.ahead[1]?).getD _
  rw [List.getElem?_drop]
  rfl

theorem ahead_report (problem : Problem) (parser : Parser) :
    (report problem parser).2.ahead = parser.ahead := by
  change (parser.record problem parser.current).ahead = parser.ahead
  rw [Parser.record_eq_step]
  rfl

theorem current_report (problem : Problem) (parser : Parser) :
    (report problem parser).2.current = parser.current := by
  change (parser.record problem parser.current).current = parser.current
  rw [Parser.record_eq_step]
  rfl

theorem current_reportIf (condition : Bool) (problem : Problem) (parser : Parser) :
    (reportIf condition problem parser).2.current = parser.current := by
  unfold reportIf
  split
  next => exact current_report problem parser
  next => rfl

theorem advance_progresses {parser : Parser} (notEnd : parser.current.kind ≠ .eof) :
    advance.Progresses parser := by
  obtain ⟨rest, split⟩ := Parser.ahead_eq_cons notEnd
  change (parser.ahead.drop 1).length < parser.ahead.length
  simp [split]

theorem skip_progresses {span : List Token → Nat} {parser : Parser}
    (notEnd : parser.current.kind ≠ .eof)
    (some : ∀ rest, 0 < span (parser.current :: rest)) : (skip span).Progresses parser := by
  obtain ⟨rest, split⟩ := Parser.ahead_eq_cons notEnd
  have taken := some rest
  change (parser.ahead.drop (span parser.ahead)).length < parser.ahead.length
  rw [List.length_drop, split]
  simp only [List.length_cons]
  omega

theorem take_progresses {span : List Token → Nat} {parser : Parser}
    (notEnd : parser.current.kind ≠ .eof)
    (some : ∀ rest, 0 < span (parser.current :: rest)) : (take span).Progresses parser :=
  skip_progresses notEnd some

theorem collect_progresses {stop : Token → Bool} {item : Reading (List α)} {parser : Parser}
    (going : stop parser.current = false) (progress : item.Progresses parser) :
    (collect stop item).Progresses parser := by
  unfold Progresses at progress
  change (collectFrom stop item parser).2.ahead.length < parser.ahead.length
  rw [collectFrom, if_neg (by simp [going])]
  dsimp only
  rw [if_pos progress]
  exact Nat.lt_of_le_of_lt ((collect stop item).follows _).length_le progress

/-- A token outside a stop set is of no kind that is in the set whatever its text. -/
theorem kind_ne_of_going {stop : Token → Bool} {token : Token} {kind : Kind}
    (stops : ∀ literal start, stop ⟨kind, literal, start⟩ = true) (going : stop token = false) :
    token.kind ≠ kind := by
  rintro rfl
  exact Bool.false_ne_true (going.symm.trans (stops token.literal token.start))

/-- Outside the stop set of its loop the item always takes a token. -/
def Advances (stop : Token → Bool) (item : Reading α) : Prop :=
  ∀ parser, stop parser.current = false → item.Progresses parser

/-- A loop whose item advances never meets the guard against items without tokens. -/
theorem collect_eq {stop : Token → Bool} {item : Reading (List α)}
    (advances : Advances stop item) :
    collect stop item = (do
      if stop (← Reading.current) then return []
      else return (← item) ++ (← collect stop item)) := by
  apply Reading.ext
  funext parser
  change collectFrom stop item parser =
    (if stop parser.current then (_ : Reading (List α)) else _) parser
  rw [collectFrom]
  split
  next => rfl
  next going =>
    have shorter := advances parser (by simpa using going)
    unfold Progresses at shorter
    dsimp only
    rw [if_pos shorter]
    rfl

theorem iterate_eq {stop : Token → Bool} {step : σ → Reading σ}
    (advances : ∀ state, Advances stop (step state)) (state : σ) :
    iterate stop step state = (do
      if stop (← Reading.current) then return state
      else iterate stop step (← step state)) := by
  apply Reading.ext
  funext parser
  change iterateFrom stop step state parser =
    (if stop parser.current then (_ : Reading σ) else _) parser
  rw [iterateFrom]
  split
  next => rfl
  next going =>
    have shorter := advances state parser (by simpa using going)
    unfold Progresses at shorter
    dsimp only
    rw [if_pos shorter]
    rfl

/-- A loop whose item advances goes on until its own stop set. -/
theorem collect_stops {stop : Token → Bool} {item : Reading (List α)}
    (advances : Advances stop item) (parser : Parser) :
    stop (collect stop item parser).2.current = true := by
  change stop (collectFrom stop item parser).2.current = true
  fun_induction collectFrom stop item parser with
  | case1 parser stopped => exact stopped
  | case2 parser going found shorter more ih => exact ih
  | case3 parser going found stuck => exact absurd (advances parser (by simpa using going)) stuck

end Reading

end CssSyntax

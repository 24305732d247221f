import CssSyntax.Proofs.Respelling.Look

/-! Readings of a source that was written again. They take as many tokens, find the same problems at
the same places, and yield the respelled result. -/

namespace CssSyntax.Respelling

open Reading

variable {α β σ : Type} {respelling : Respelling} {parser : Parser}

/-- The right reading does to the source that was written again what the left one does to the
source, and yields the changed result. -/
def Links (respelling : Respelling) (change : α → α) (left right : Reading α)
    (parser : Parser) : Prop :=
  parser.Quoted →
    right (respelling.parser parser) =
      (change (left parser).1, respelling.parser (left parser).2)

/-- The reading yields the changed result of the source that was written again. -/
abbrev Carries (respelling : Respelling) (change : α → α) (reading : Reading α)
    (parser : Parser) : Prop :=
  respelling.Links change reading reading parser

namespace Links

variable {near change : α → α} {far : β → β} {left right : Reading α} {next other : α → Reading β}

theorem bind (first : respelling.Links near left right parser)
    (second : respelling.Links far (next (left parser).1) (other (near (left parser).1))
      (left parser).2) :
    respelling.Links far (left >>= next) (right >>= other) parser := by
  intro quoted
  rw [bind_apply, first quoted]
  exact second (left.quoted_after quoted)

/-- What a first reading yields is the same in both sources. -/
theorem after (first : respelling.Links id left right parser)
    (second : respelling.Links far (next (left parser).1) (other (left parser).1)
      (left parser).2) :
    respelling.Links far (left >>= next) (right >>= other) parser :=
  bind first second

theorem pure {value result : α} (same : result = change value) :
    respelling.Links change (Pure.pure value) (Pure.pure result) parser := by
  intro _
  rw [same]
  rfl

theorem map {make made : α → β} (first : respelling.Links near left right parser)
    (commutes : ∀ found, made (near found) = far (make found)) :
    respelling.Links far (make <$> left) (made <$> right) parser := by
  intro quoted
  change (made (right (respelling.parser parser)).1, (right (respelling.parser parser)).2) = _
  rw [first quoted]
  exact congrArg (fun result => (result, respelling.parser (left parser).2)) (commutes _)

/-- Last a change of what was read. -/
theorem returning {make made : α → β} (first : respelling.Links near left right parser)
    (commutes : ∀ found, made (near found) = far (make found)) :
    respelling.Links far (left >>= fun found => Pure.pure (make found))
      (right >>= fun found => Pure.pure (made found)) parser :=
  map first commutes

theorem ite {condition alike : Prop} [Decidable condition] [Decidable alike]
    {yes no respelledYes respelledNo : Reading α} (same : alike ↔ condition)
    (first : condition → respelling.Links change yes respelledYes parser)
    (second : ¬condition → respelling.Links change no respelledNo parser) :
    respelling.Links change (if condition then yes else no)
      (if alike then respelledYes else respelledNo) parser := by
  by_cases holds : condition
  · rw [if_pos holds, if_pos (same.2 holds)]
    exact first holds
  · rw [if_neg holds, if_neg fun alike => holds (same.1 alike)]
    exact second holds

/-- Strings ahead start with their quotes. -/
theorem withQuotes (far : parser.Quoted → respelling.Links change left right parser) :
    respelling.Links change left right parser :=
  fun quoted => far quoted quoted

theorem look {seen shown : Parser → α} {blind sightless}
    (same : shown (respelling.parser parser) = seen parser)
    (second : respelling.Links far (next (seen parser)) (other (seen parser)) parser) :
    respelling.Links far (peek seen blind >>= next) (peek shown sightless >>= other) parser := by
  intro quoted
  change other (shown (respelling.parser parser)) (respelling.parser parser) = _
  rw [same]
  exact second quoted

/-- The bytes of the current token are respelled. -/
theorem current {next other : Token → Reading β}
    (second : respelling.Links far (next parser.current)
      (other (respelling.token parser.current)) parser) :
    respelling.Links far (Reading.current >>= next) (Reading.current >>= other) parser := by
  intro quoted
  change other (respelling.parser parser).current (respelling.parser parser) = _
  rw [current_respelled]
  exact second quoted

theorem currentIs {kind : Kind} {next other : Bool → Reading β}
    (second : respelling.Links far (next (parser.currentIs kind))
      (other (parser.currentIs kind)) parser) :
    respelling.Links far (Reading.currentIs kind >>= next) (Reading.currentIs kind >>= other)
      parser :=
  look (currentIs_respelled kind) second

theorem nextIs {kind : Kind} {next other : Bool → Reading β}
    (second : respelling.Links far (next (parser.nextIs kind)) (other (parser.nextIs kind))
      parser) :
    respelling.Links far (Reading.nextIs kind >>= next) (Reading.nextIs kind >>= other) parser :=
  look (nextIs_respelled kind) second

theorem skip {span : List Token → Nat}
    (same : ∀ tokens, span (tokens.map respelling.token) = span tokens) :
    respelling.Carries id (Reading.skip span) parser := by
  intro _
  change ((), (respelling.parser parser).skip (span (parser.ahead.map respelling.token))) = _
  rw [same, skip_respelled]
  rfl

/-- The tokens that are taken are respelled. -/
theorem take {span : List Token → Nat} {next other : List Token → Reading β}
    (same : ∀ tokens, span (tokens.map respelling.token) = span tokens)
    (second : respelling.Links far (next (parser.ahead.take (span parser.ahead)))
      (other ((parser.ahead.take (span parser.ahead)).map respelling.token))
      (parser.skip (span parser.ahead))) :
    respelling.Links far (Reading.take span >>= next) (Reading.take span >>= other) parser := by
  intro quoted
  change other ((parser.ahead.map respelling.token).take
      (span (parser.ahead.map respelling.token)))
    ((respelling.parser parser).skip (span (parser.ahead.map respelling.token))) = _
  rw [same, skip_respelled, ← List.map_take]
  exact second ((Reading.take span).quoted_after quoted)

theorem reportAt {problem : Problem} {token : Token} :
    respelling.Links id (Reading.reportAt problem token)
      (Reading.reportAt problem (respelling.token token)) parser :=
  fun _ => congrArg (Prod.mk ()) (record_respelled problem token)

theorem report {problem : Problem} : respelling.Carries id (Reading.report problem) parser :=
  current reportAt

theorem reportIf {condition alike : Bool} {problem : Problem} (same : alike = condition) :
    respelling.Links id (Reading.reportIf condition problem) (Reading.reportIf alike problem)
      parser := by
  rw [same]
  exact ite Iff.rfl (fun _ => report) fun _ => pure rfl

theorem advance : respelling.Carries id Reading.advance parser := skip fun _ => rfl

theorem skipComments : respelling.Carries id Reading.skipComments parser :=
  skip (Span.before_map respelling.token fun _ => rfl)

theorem skipBlock : respelling.Carries id Reading.skipBlock parser :=
  skip (Span.block_map token_kind 0)

theorem skipDeclaration : respelling.Carries id Reading.skipDeclaration parser :=
  skip (Span.declaration_map token_kind)

theorem skipGroup : respelling.Carries id Reading.skipGroup parser :=
  skip (Span.group_map token_kind 0)

theorem skipAtRule : respelling.Carries id Reading.skipAtRule parser :=
  skip (Span.atRule_map token_kind 0)

/-- A token that is taken and leaves nothing behind. -/
theorem advancing {value result : α} (same : result = change value) :
    respelling.Links change
      (do
        Reading.advance
        return value)
      (do
        Reading.advance
        return result) parser :=
  after advance (pure same)

theorem reporting {problem : Problem} {value result : α} (same : result = change value) :
    respelling.Links change
      (do
        Reading.report problem
        return value)
      (do
        Reading.report problem
        return result) parser :=
  after report (pure same)

theorem accept {kind : Kind} : respelling.Carries id (Reading.accept kind) parser :=
  currentIs (ite Iff.rfl (fun _ => advancing rfl) fun _ => pure rfl)

theorem acceptWord {word : Bytes} : respelling.Carries id (Reading.acceptWord word) parser := by
  apply current
  rw [token_isWord]
  exact ite Iff.rfl (fun _ => advancing rfl) fun _ => pure rfl

theorem expect {kind : Kind} {problem : Problem} :
    respelling.Carries id (Reading.expect kind problem) parser :=
  after accept (ite Iff.rfl (fun _ => pure rfl) fun _ => reporting rfl)

section Loops

variable {stop : Token → Bool} (blind : ∀ token, stop (respelling.token token) = stop token)
include blind

/-- A loop over items whose results are joined, if the change respects the joining. -/
theorem joined {changes : List α → List α} {item : Reading (List α)} (nil : changes [] = [])
    (append : ∀ front back, changes (front ++ back) = changes front ++ changes back)
    (items : ∀ parser, stop parser.current = false → respelling.Carries changes item parser)
    (parser : Parser) : respelling.Carries changes (Reading.collect stop item) parser := by
  intro quoted
  change collectFrom stop item (respelling.parser parser) =
    (changes (collectFrom stop item parser).1,
      respelling.parser (collectFrom stop item parser).2)
  -- Both loops look at tokens of the same kinds and have as many ahead, so they take as many
  -- turns.
  have here (parser : Parser) : stop (respelling.parser parser).current = stop parser.current := by
    rw [current_respelled, blind]
  fun_induction collectFrom stop item parser with
  | case1 parser stopped =>
    rw [collectFrom, here, if_pos stopped, nil]
  | case2 parser going found shorter more ih =>
    have first := items parser (Bool.eq_false_iff.2 going) quoted
    have further := ih (item.quoted_after quoted)
    rw [collectFrom, here, if_neg going, first]
    dsimp only
    rw [length_respelled, length_respelled, if_pos shorter, further, append]
  | case3 parser going found stuck =>
    have first := items parser (Bool.eq_false_iff.2 going) quoted
    rw [collectFrom, here, if_neg going, first]
    dsimp only
    rw [length_respelled, length_respelled, if_neg stuck]

theorem collect {item : Reading (List α)}
    (items : ∀ parser, stop parser.current = false →
      respelling.Carries (List.map change) item parser)
    (parser : Parser) :
    respelling.Carries (List.map change) (Reading.collect stop item) parser :=
  joined blind rfl (fun _ _ => List.map_append) items parser

theorem iterate {change : σ → σ} {step : σ → Reading σ}
    (steps : ∀ state parser, stop parser.current = false →
      respelling.Links change (step state) (step (change state)) parser)
    (state : σ) (parser : Parser) :
    respelling.Links change (Reading.iterate stop step state)
      (Reading.iterate stop step (change state)) parser := by
  intro quoted
  change iterateFrom stop step (change state) (respelling.parser parser) =
    (change (iterateFrom stop step state parser).1,
      respelling.parser (iterateFrom stop step state parser).2)
  have here (parser : Parser) : stop (respelling.parser parser).current = stop parser.current := by
    rw [current_respelled, blind]
  fun_induction iterateFrom stop step state parser with
  | case1 state parser stopped =>
    rw [iterateFrom, here, if_pos stopped]
  | case2 state parser going found shorter ih =>
    have first := steps state parser (Bool.eq_false_iff.2 going) quoted
    have further := ih ((step state).quoted_after quoted)
    rw [iterateFrom, here, if_neg going, first]
    dsimp only
    rw [length_respelled, length_respelled, if_pos shorter, further]
  | case3 state parser going found stuck =>
    have first := steps state parser (Bool.eq_false_iff.2 going) quoted
    rw [iterateFrom, here, if_neg going, first]
    dsimp only
    rw [length_respelled, length_respelled, if_neg stuck]

end Loops

end Links

end CssSyntax.Respelling

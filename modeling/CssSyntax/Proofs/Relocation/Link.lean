import CssSyntax.Proofs.Grammar.Progress
import CssSyntax.Proofs.Parser.Trace
import CssSyntax.Proofs.Relocation.Place
import Mathlib.Data.List.Forall2

/-! Readings of relocated tokens. A reading and the same reading of the relocated tokens yield the
same, take as many tokens and find the same problems at the corresponding tokens, as long as the
tokens that were added stay out of sight. -/

namespace CssSyntax

open Reading

namespace Relocation

variable {α β σ : Type} {relocation : Relocation} {parser : Parser}

/-- True of what depends on the kind and the bytes of a token, and not on its place. -/
def Placeless (next : Token → α) : Prop :=
  next = fun token => next ⟨token.kind, token.literal, .start⟩

theorem Placeless.token_eq {next : Token → α} (placeless : Placeless next) (token : Token) :
    next (relocation.token token) = next token :=
  (congrFun placeless (relocation.token token)).trans (congrFun placeless token).symm

/-- The same problem at a token and at the relocated one. -/
def Same (relocation : Relocation) (found moved : Diagnostic) : Prop :=
  ∃ problem token, found = .ofToken problem token ∧
    moved = .ofToken problem (relocation.token token)

/-- The right reading does to the relocated tokens what the left one does to the tokens. -/
def Agree (relocation : Relocation) (left right : Reading α) (parser : Parser) : Prop :=
  ∃ problems, List.Forall₂ relocation.Same (left.found parser) problems ∧ ∀ limit errors,
    right ((relocation.parser parser).withErrors limit errors) =
      ((left parser).1,
        (relocation.parser (left parser).2).withErrors limit (capped limit errors problems))

/-- The readings agree if the tokens that were added are still out of sight in the end. -/
def Links (relocation : Relocation) (left right : Reading α) (parser : Parser) : Prop :=
  relocation.Keeps parser.ahead → relocation.Covers (left parser).2 →
    relocation.Agree left right parser

/-- The reading does the same to the relocated tokens. -/
abbrev Carries (relocation : Relocation) (reading : Reading α) (parser : Parser) : Prop :=
  relocation.Links reading reading parser

theorem Keeps.later {tokens : Reading α} (keeps : relocation.Keeps parser.ahead) :
    relocation.Keeps (tokens parser).2.ahead :=
  keeps.sublist (tokens.follows parser).ahead.sublist

theorem Covers.earlier {reading : Reading α} (covers : relocation.Covers (reading parser).2) :
    relocation.Covers parser :=
  covers.of_follows (reading.follows parser)

namespace Agree

variable {left right : Reading α} {next other : α → Reading β}

theorem pure {value : α} :
    relocation.Agree (Pure.pure value) (Pure.pure value) parser :=
  ⟨[], .nil, fun limit errors => by rw [capped_nil]; rfl⟩

theorem bind (first : relocation.Agree left right parser)
    (second : relocation.Agree (next (left parser).1) (other (left parser).1) (left parser).2) :
    relocation.Agree (left >>= next) (right >>= other) parser := by
  obtain ⟨problems, same, run⟩ := first
  obtain ⟨further, alike, continued⟩ := second
  refine ⟨problems ++ further, ?_, fun limit errors => ?_⟩
  · rw [found_bind]
    exact List.rel_append same alike
  · rw [bind_apply, run, continued, capped_append]
    rfl

theorem map {change : α → β} (first : relocation.Agree left right parser) :
    relocation.Agree (change <$> left) (change <$> right) parser := by
  obtain ⟨problems, same, run⟩ := first
  refine ⟨problems, same, fun limit errors => ?_⟩
  exact congrArg (fun result => (change result.1, result.2)) (run limit errors)

/-- What two looks show may differ. -/
theorem look {γ : Type} {seen : Parser → α} {shown : Parser → γ} {value : γ} {blind sightless}
    {next : α → Reading β} {other : γ → Reading β}
    (same : shown (relocation.parser parser) = value)
    (far : relocation.Agree (next (seen parser)) (other value) parser) :
    relocation.Agree (peek seen blind >>= next) (peek shown sightless >>= other) parser := by
  obtain ⟨problems, alike, run⟩ := far
  refine ⟨problems, ?_, fun limit errors => ?_⟩
  · rw [found_bind]
    exact alike
  · change other (shown ((relocation.parser parser).withErrors limit errors)) _ = _
    rw [sightless, same]
    exact run limit errors

theorem skip {span other : List Token → Nat}
    (same : other (relocation.parser parser).ahead = span parser.ahead)
    (reaches : relocation.more = [] ∨ span parser.ahead ≤ parser.ahead.length) :
    relocation.Agree (Reading.skip span) (Reading.skip other) parser := by
  refine ⟨[], .nil, fun limit errors => ?_⟩
  rw [capped_nil]
  change ((), ((relocation.parser parser).skip (other (relocation.parser parser).ahead)).withErrors
    limit errors) = _
  rw [same, skip_eq reaches]
  rfl

theorem take {span other : List Token → Nat} {next following : List Token → Reading β}
    (same : other (relocation.parser parser).ahead = span parser.ahead)
    (reaches : relocation.more = [] ∨ span parser.ahead ≤ parser.ahead.length)
    (far : relocation.Agree (next (parser.ahead.take (span parser.ahead)))
      (following ((parser.ahead.take (span parser.ahead)).map relocation.token))
      (parser.skip (span parser.ahead))) :
    relocation.Agree (Reading.take span >>= next) (Reading.take other >>= following) parser := by
  obtain ⟨problems, alike, run⟩ := far
  refine ⟨problems, ?_, fun limit errors => ?_⟩
  · rw [found_bind]
    exact alike
  · change following
      ((relocation.parser parser).ahead.take (other (relocation.parser parser).ahead))
      (((relocation.parser parser).skip (other (relocation.parser parser).ahead)).withErrors
        limit errors) = _
    rw [same, skip_eq reaches, take_eq reaches]
    exact run limit errors

theorem reportAt {problem : Problem} {token : Token} :
    relocation.Agree (Reading.reportAt problem token)
      (Reading.reportAt problem (relocation.token token)) parser := by
  refine ⟨[Diagnostic.ofToken problem (relocation.token token)], ?_, fun limit errors => ?_⟩
  · exact .cons ⟨problem, token, rfl, rfl⟩ .nil
  · change ((), ((relocation.parser parser).withErrors limit errors).record problem _) =
      ((), (relocation.parser (parser.record problem token)).withErrors _ _)
    rw [Parser.record_eq_step, Parser.record_eq_step]
    rfl

end Agree

namespace Links

variable {left right : Reading α} {next other : α → Reading β}

theorem bind (first : relocation.Links left right parser)
    (second : relocation.Links (next (left parser).1) (other (left parser).1) (left parser).2) :
    relocation.Links (left >>= next) (right >>= other) parser := by
  intro keeps covers
  exact (first keeps (covers.of_follows ((next _).follows _))).bind (second keeps.later covers)

theorem pure {value : α} : relocation.Carries (Pure.pure value) parser :=
  fun _ _ => .pure

theorem map {change : α → β} (first : relocation.Links left right parser) :
    relocation.Links (change <$> left) (change <$> right) parser :=
  fun keeps covers => (first keeps covers).map

/-- Last a change of what was read. -/
theorem returning {change : α → β} (first : relocation.Links left right parser) :
    relocation.Links (left >>= fun found => Pure.pure (change found))
      (right >>= fun found => Pure.pure (change found)) parser :=
  map first

theorem ite {condition : Prop} [Decidable condition] {yes no yes' no' : Reading α}
    (first : condition → relocation.Links yes yes' parser)
    (second : ¬condition → relocation.Links no no' parser) :
    relocation.Links (if condition then yes else no) (if condition then yes' else no') parser := by
  split
  next holds => exact first holds
  next fails => exact second fails

/-- What a look shows is known once the tokens added are known to be out of sight. -/
theorem look {seen : Parser → α} {blind}
    (same : relocation.Keeps parser.ahead → relocation.Covers parser →
      seen (relocation.parser parser) = seen parser)
    (far : relocation.Links (next (seen parser)) (other (seen parser)) parser) :
    relocation.Links (peek seen blind >>= next) (peek seen blind >>= other) parser :=
  fun keeps covers => .look (same keeps (Covers.earlier covers)) (far keeps covers)

/-- The current token is at its new place. -/
theorem currentToken {next other : Token → Reading β}
    (far : relocation.Links (next parser.current) (other (relocation.token parser.current))
      parser) :
    relocation.Links (Reading.current >>= next) (Reading.current >>= other) parser :=
  fun keeps covers => .look (current_eq (Covers.earlier covers)) (far keeps covers)

/-- Mostly only the kind and the bytes of the current token matter. -/
theorem current {next : Token → Reading β} (placeless : Placeless next)
    (far : relocation.Links (next parser.current) (next parser.current) parser) :
    relocation.Links (Reading.current >>= next) (Reading.current >>= next) parser := by
  refine currentToken ?_
  rw [placeless.token_eq]
  exact far

theorem currentIs {kind : Kind} {next other : Bool → Reading β}
    (far : relocation.Links (next (parser.currentIs kind)) (other (parser.currentIs kind)) parser) :
    relocation.Links (Reading.currentIs kind >>= next) (Reading.currentIs kind >>= other) parser :=
  look (fun _ covers => currentIs_eq covers kind) far

theorem nextIs {kind : Kind} {next other : Bool → Reading β} (plain : parser.current.seals = false)
    (far : relocation.Links (next (parser.nextIs kind)) (other (parser.nextIs kind)) parser) :
    relocation.Links (Reading.nextIs kind >>= next) (Reading.nextIs kind >>= other) parser :=
  look (fun _ covers => nextIs_eq covers plain kind) far

theorem skip {span other : List Token → Nat} (settles : Span.Settles other)
    (same : relocation.Keeps parser.ahead →
      other (parser.ahead.map relocation.token) = span parser.ahead) :
    relocation.Links (Reading.skip span) (Reading.skip other) parser :=
  fun keeps covers => .skip (span_eq settles (same keeps) covers) (length_of_covers covers)

/-- The stretch that is taken is at its new place. -/
theorem take {span other : List Token → Nat} {next following : List Token → Reading β}
    (settles : Span.Settles other)
    (same : relocation.Keeps parser.ahead →
      other (parser.ahead.map relocation.token) = span parser.ahead)
    (far : relocation.Keeps (parser.ahead.take (span parser.ahead)) →
      relocation.Links (next (parser.ahead.take (span parser.ahead)))
        (following ((parser.ahead.take (span parser.ahead)).map relocation.token))
        (parser.skip (span parser.ahead))) :
    relocation.Links (Reading.take span >>= next) (Reading.take other >>= following) parser := by
  intro keeps covers
  have left : relocation.Covers (parser.skip (span parser.ahead)) :=
    covers.of_follows ((next _).follows _)
  have taken := keeps.sublist (List.take_sublist (span parser.ahead) parser.ahead)
  refine .take (span_eq settles (same keeps) left) (length_of_covers left) ?_
  exact far taken (keeps.sublist (List.drop_sublist _ _)) covers

theorem reportAt {problem : Problem} {token : Token} :
    relocation.Links (Reading.reportAt problem token)
      (Reading.reportAt problem (relocation.token token)) parser :=
  fun _ _ => .reportAt

theorem report {problem : Problem} :
    relocation.Carries (Reading.report problem) parser :=
  currentToken reportAt

theorem reportIf {condition : Bool} {problem : Problem} :
    relocation.Carries (Reading.reportIf condition problem) parser :=
  ite (fun _ => report) fun _ => pure

theorem advance : relocation.Carries Reading.advance parser :=
  skip (Span.settles_const 1) fun _ => rfl

theorem skipComments : relocation.Carries Reading.skipComments parser :=
  skip (Span.before_settles _) fun _ => Span.before_map relocation.token (fun _ => rfl) _

theorem skipBlock : relocation.Carries Reading.skipBlock parser :=
  skip (Span.block_settles 0) fun _ => Span.block_map token_kind 0 _

theorem skipDeclaration : relocation.Carries Reading.skipDeclaration parser :=
  skip Span.declaration_settles fun _ => Span.declaration_map token_kind _

theorem skipGroup : relocation.Carries Reading.skipGroup parser :=
  skip (Span.group_settles 0) fun _ => Span.group_map token_kind 0 _

theorem skipAtRule : relocation.Carries Reading.skipAtRule parser :=
  skip (Span.atRule_settles 0) fun _ => Span.atRule_map token_kind 0 _

theorem accept {kind : Kind} : relocation.Carries (Reading.accept kind) parser :=
  currentIs (ite (fun _ => bind advance pure) fun _ => pure)

theorem acceptWord {word : Bytes} :
    relocation.Carries (Reading.acceptWord word) parser :=
  current rfl (ite (fun _ => bind advance pure) fun _ => pure)

theorem expect {kind : Kind} {problem : Problem} :
    relocation.Carries (Reading.expect kind problem) parser :=
  bind accept (ite (fun _ => pure) fun _ => bind report pure)

section Loops

variable {stop : Token → Bool}

theorem collect {item : Reading (List α)} (advances : Advances stop item)
    (placeless : Placeless stop)
    (items : ∀ parser, stop parser.current = false → relocation.Carries item parser)
    (parser : Parser) :
    relocation.Carries (Reading.collect stop item) parser := by
  induction parser using (measure fun parser : Parser => parser.ahead.length).wf.induction with
  | h parser ih =>
    rw [collect_eq advances]
    refine currentToken ?_
    rw [placeless.token_eq]
    refine ite (fun _ => pure) fun going => ?_
    have going : stop parser.current = false := by simpa using going
    exact bind (items parser going) (returning (ih _ (advances parser going)))

theorem iterate {step : σ → Reading σ} (advances : ∀ state, Advances stop (step state))
    (placeless : Placeless stop)
    (steps : ∀ state parser, stop parser.current = false →
      relocation.Carries (step state) parser)
    (state : σ) (parser : Parser) :
    relocation.Carries (Reading.iterate stop step state) parser := by
  induction parser using (measure fun parser : Parser => parser.ahead.length).wf.induction
    generalizing state with
  | h parser ih =>
    rw [iterate_eq advances]
    refine currentToken ?_
    rw [placeless.token_eq]
    refine ite (fun _ => pure) fun going => ?_
    have going : stop parser.current = false := by simpa using going
    exact bind (steps state parser going) (ih _ (advances state parser going) _)

end Loops

end Links

end Relocation

end CssSyntax

import CssSyntax.Proofs.Value.Numeral

/-! What makes a declaration important. A `!` directly before the word `important` does so wherever
it stands between the values, and a `!` that stands anywhere else is a problem. -/

namespace CssSyntax.Grammar

open Reading

/-- How many groups are open behind a token, where `depth` are open before it. An opening brace ends
the groups that there is no room for. -/
def depthAfter (room depth : Nat) (token : Token) : Nat :=
  match token.kind with
  | .openParen => depth + 1
  | .closeParen => depth - 1
  | .openBrace => min depth room
  | _ => depth

/-- From some token on the tokens are such, given how many groups are open before it. -/
def Somewhere (room : Nat) (such : Nat → List Token → Prop) (depth : Nat) (tokens : List Token) :
    Prop :=
  ∃ front token back, tokens = front ++ token :: back ∧
    such (front.foldl (depthAfter room) depth) (token :: back)

/-- Outside of groups, a `!` directly before the word `important`. -/
def MakesImportant (depth : Nat) (tokens : List Token) : Prop :=
  depth = 0 ∧ ∃ mark word rest, tokens = mark :: word :: rest ∧ mark.kind = .exclamation ∧
    word.isWord Word.importantWord = true

/-- A `!` that makes nothing important. -/
def Stray (depth : Nat) (tokens : List Token) : Prop :=
  (∃ mark ∈ tokens.head?, mark.kind = .exclamation) ∧ ¬MakesImportant depth tokens

section Tokens

variable {room depth after : Nat} {such : Nat → List Token → Prop} {token : Token}
variable {tokens rest : List Token}

theorem not_somewhere_nil : ¬Somewhere room such depth [] := by
  rintro ⟨front, token, back, split, -⟩
  simp at split

theorem somewhere_cons :
    Somewhere room such depth (token :: rest) ↔
      such depth (token :: rest) ∨ Somewhere room such (depthAfter room depth token) rest := by
  constructor
  · rintro ⟨front, other, back, split, holds⟩
    cases front with
    | nil =>
      rw [split]
      exact .inl holds
    | cons first front =>
      obtain ⟨rfl, rfl⟩ := List.cons.inj split
      exact .inr ⟨front, other, back, rfl, holds⟩
  · rintro (holds | ⟨front, other, back, rfl, holds⟩)
    · exact ⟨[], token, rest, rfl, holds⟩
    · exact ⟨token :: front, other, back, rfl, holds⟩

theorem somewhere_cons_of_not (other : ¬such depth (token :: rest)) :
    Somewhere room such depth (token :: rest) ↔
      Somewhere room such (depthAfter room depth token) rest := by
  rw [somewhere_cons]
  exact or_iff_right other

theorem not_makesImportant (other : token.kind ≠ .exclamation) :
    ¬MakesImportant depth (token :: rest) := by
  rintro ⟨-, mark, word, behind, split, is, -⟩
  obtain ⟨rfl, -⟩ := List.cons.inj split
  exact other is

theorem not_stray (other : token.kind ≠ .exclamation) : ¬Stray depth (token :: rest) := by
  rintro ⟨⟨mark, first, is⟩, -⟩
  obtain rfl := Option.some.inj first
  exact other is

/-- The tokens up to the one that ends a declaration. -/
def line (tokens : List Token) : List Token := tokens.takeWhile fun token => !endsDeclaration token

theorem line_cons (going : endsDeclaration token = false) :
    line (token :: rest) = token :: line rest :=
  List.takeWhile_cons_of_pos (by simp [going])

theorem line_of_ends (ends : endsDeclaration token = true) : line (token :: rest) = [] :=
  List.takeWhile_cons_of_neg (by simp [ends])

/-- What it means that a part of a declaration stands before `behind`: it makes the declaration
important if it is marked, and has no stray `!` if it is quiet. -/
structure Crossing (room : Nat) (marked quiet : Prop) (depth after : Nat)
    (before behind : List Token) : Prop where
  within : ∃ front, before = front ++ behind ∧ ∀ token ∈ front, endsDeclaration token = false
  important : Somewhere room MakesImportant depth (line before) ↔
    marked ∨ Somewhere room MakesImportant after (line behind)
  stray : quiet → Somewhere room Stray depth (line before) →
    Somewhere room Stray after (line behind)

namespace Crossing

variable {marked quiet further loud : Prop} {middle : Nat} {before between behind : List Token}

theorem refl : Crossing room False quiet depth depth tokens tokens where
  within := ⟨[], rfl, List.forall_mem_nil _⟩
  important := by simp
  stray _ is := is

theorem trans (near : Crossing room marked quiet depth middle before between)
    (far : Crossing room further loud middle after between behind) :
    Crossing room (marked ∨ further) (quiet ∧ loud) depth after before behind where
  within := by
    obtain ⟨front, rfl, first⟩ := near.within
    obtain ⟨more, rfl, second⟩ := far.within
    exact ⟨front ++ more, (List.append_assoc ..).symm, List.forall_mem_append.2 ⟨first, second⟩⟩
  important := by rw [near.important, far.important, or_assoc]
  stray both is := far.stray both.2 (near.stray both.1 is)

theorem congr (crossing : Crossing room marked quiet depth after before behind)
    (same : further ↔ marked) (less : loud → quiet) :
    Crossing room further loud depth after before behind where
  within := crossing.within
  important := by rw [same, crossing.important]
  stray is := crossing.stray (less is)

/-- One token that makes nothing important, and is no `!` if it is quiet. -/
theorem cons (going : endsDeclaration token = false)
    (plain : ¬MakesImportant depth (token :: line rest))
    (clear : quiet → token.kind ≠ .exclamation) :
    Crossing room False quiet depth (depthAfter room depth token) (token :: rest) rest where
  within := ⟨[token], rfl, List.forall_mem_singleton.2 going⟩
  important := by
    rw [line_cons going, somewhere_cons_of_not plain]
    simp
  stray is := by
    rw [line_cons going, somewhere_cons_of_not (not_stray (clear is))]
    exact id

theorem other (going : endsDeclaration token = false) (other : token.kind ≠ .exclamation) :
    Crossing room False quiet depth (depthAfter room depth token) (token :: rest) rest :=
  cons going (not_makesImportant other) fun _ => other

/-- Where a declaration ends, no group is open any more. -/
theorem ended (ends : line tokens = []) : Crossing room False quiet depth after tokens tokens where
  within := ⟨[], rfl, List.forall_mem_nil _⟩
  important := by
    rw [ends]
    simp [not_somewhere_nil]
  stray _ is := by
    rw [ends] at is
    exact absurd is not_somewhere_nil

/-- Before a token behind which the same groups are open, it does not matter which ones are. -/
theorem level (going : endsDeclaration token = false) (other : token.kind ≠ .exclamation)
    (same : depthAfter room depth token = depthAfter room after token) :
    Crossing room False quiet depth after (token :: rest) (token :: rest) where
  within := ⟨[], rfl, List.forall_mem_nil _⟩
  important := by
    rw [line_cons going, somewhere_cons_of_not (not_makesImportant other), same,
      somewhere_cons_of_not (not_makesImportant other)]
    simp
  stray _ := by
    rw [line_cons going, somewhere_cons_of_not (not_stray other), same,
      somewhere_cons_of_not (not_stray other)]
    exact id

end Crossing

theorem isStructural_iff :
    token.isStructural = true ↔ token.kind = .openBrace ∨ endsDeclaration token = true := by
  simp only [Token.isStructural, endsDeclaration, Bool.or_eq_true, beq_iff_eq]
  grind

/-- Dropping a group that there is no room for leaves as many groups as there is room for. -/
theorem group_crossing (opened : Nat) (tokens : List Token) :
    Crossing room False False (room + 1 + opened) room tokens
      (tokens.drop (Span.group opened tokens)) := by
  -- `opened` counts the groups beyond the room; while one of them is open, no pair counts.
  induction tokens generalizing opened with
  | nil => exact .ended rfl
  | cons token rest ih =>
    have deep : ¬MakesImportant (room + 1 + opened) (token :: line rest) := by
      rintro ⟨flat, -⟩
      omega
    rw [Span.group]
    split
    next structural =>
      rw [isStructural_iff] at structural
      by_cases ends : endsDeclaration token = true
      · exact .ended (line_of_ends ends)
      · have brace := structural.resolve_right ends
        refine .level (Bool.eq_false_iff.2 ends) (by simp [brace]) ?_
        simp only [depthAfter, brace]
        omega
    next plain =>
      have going : endsDeclaration token = false :=
        Bool.eq_false_iff.2 fun ends => plain (isStructural_iff.2 (.inr ends))
      have first : Crossing room False False (room + 1 + opened) _ (token :: rest) rest :=
        .cons going deep False.elim
      have further {more : Nat}
          (inner : depthAfter room (room + 1 + opened) token = room + 1 + more) :
          Crossing room False False (room + 1 + opened) room (token :: rest)
            (rest.drop (Span.group more rest)) := by
        rw [inner] at first
        exact (first.trans (ih more)).congr (by simp) False.elim
      split
      next opens => exact further (by simp [depthAfter, opens]; omega)
      next closes =>
        split
        next last =>
          have outside : depthAfter room (room + 1 + opened) token = room := by
            simp [depthAfter, closes, last]
          rwa [outside] at first
        next inside => exact further (by simp [depthAfter, closes]; omega)
      next notOpens notCloses =>
        have notBrace : token.kind ≠ .openBrace := fun is => plain (isStructural_iff.2 (.inl is))
        refine further ?_
        unfold depthAfter
        split <;> simp_all

/-- True of a token that opens and closes nothing, ends nothing and is no `!`. -/
def isInert (token : Token) : Bool :=
  match token.kind with
  | .openParen => false
  | .closeParen => false
  | .openBrace => false
  | .exclamation => false
  | .semicolon => false
  | .closeBrace => false
  | .eof => false
  | _ => true

theorem going_of_isInert (inert : isInert token = true) : endsDeclaration token = false := by
  unfold isInert at inert
  cases is : token.kind <;> simp_all [endsDeclaration]

theorem plain_of_isInert (inert : isInert token = true) : token.kind ≠ .exclamation := by
  intro is
  simp [isInert, is] at inert

theorem depthAfter_of_isInert (inert : isInert token = true) :
    depthAfter room depth token = depth := by
  unfold isInert at inert
  unfold depthAfter
  cases is : token.kind <;> simp_all

theorem Crossing.inert {quiet : Prop} {front : List Token}
    (inert : ∀ token ∈ front, isInert token = true) :
    Crossing room False quiet depth depth (front ++ rest) rest := by
  induction front with
  | nil => exact .refl
  | cons token front ih =>
    obtain ⟨first, others⟩ := List.forall_mem_cons.1 inert
    have step : Crossing room False quiet depth _ (token :: (front ++ rest)) (front ++ rest) :=
      .other (going_of_isInert first) (plain_of_isInert first)
    rw [depthAfter_of_isInert first] at step
    exact (step.trans (ih others)).congr (by simp) fun is => ⟨is, is⟩

end Tokens

end CssSyntax.Grammar

namespace CssSyntax.Reading

open Grammar

variable {α β : Type} {parser : Parser} {room depth middle after : Nat}

/-- What the reading takes is a part of a declaration. It makes nothing important, and a stray `!`
in it is a problem. -/
def Crosses (reading : Reading α) (room depth after : Nat) (parser : Parser) : Prop :=
  Crossing room False (reading.found parser = []) depth after parser.ahead (reading parser).2.ahead

namespace Crosses

variable {reading : Reading α} {next : α → Reading β}

theorem pure {value : α} : (Pure.pure value : Reading α).Crosses room depth depth parser :=
  .refl

theorem bind (near : reading.Crosses room depth middle parser)
    (far : (next (reading parser).1).Crosses room middle after (reading parser).2) :
    (reading >>= next).Crosses room depth after parser := by
  refine (near.trans far).congr (by simp) fun quiet => ?_
  rw [found_bind] at quiet
  exact List.append_eq_nil_iff.1 quiet

theorem map {change : α → β} (crosses : reading.Crosses room depth after parser) :
    (change <$> reading).Crosses room depth after parser :=
  crosses

/-- Last a change of what was read. -/
theorem returning {change : α → β} (crosses : reading.Crosses room depth after parser) :
    (reading >>= fun found => Pure.pure (change found)).Crosses room depth after parser :=
  crosses.bind pure

theorem look {seen : Parser → α} {blind}
    (far : (next (seen parser)).Crosses room depth after parser) :
    (peek seen blind >>= next).Crosses room depth after parser :=
  bind .refl far

theorem current {next : Token → Reading β}
    (far : (next parser.current).Crosses room depth after parser) :
    (Reading.current >>= next).Crosses room depth after parser :=
  look far

theorem ite {condition : Prop} [Decidable condition] {yes no : Reading β}
    (first : condition → yes.Crosses room depth after parser)
    (second : ¬condition → no.Crosses room depth after parser) :
    (if condition then yes else no).Crosses room depth after parser := by
  split
  next holds => exact first holds
  next fails => exact second fails

theorem of_inert {front : List Token} (split : parser.ahead = front ++ (reading parser).2.ahead)
    (inert : ∀ token ∈ front, isInert token = true) : reading.Crosses room depth depth parser := by
  unfold Crosses
  rw [split]
  exact .inert inert

theorem advance (going : endsDeclaration parser.current = false)
    (other : parser.current.kind ≠ .exclamation)
    (level : depthAfter room depth parser.current = after) :
    Reading.advance.Crosses room depth after parser := by
  have notEnd : parser.current.kind ≠ .eof := kind_ne_of_going (fun _ _ => rfl) going
  subst level
  unfold Crosses
  rw [Parser.ahead_eq_skip notEnd]
  exact .other going other

theorem advance_inert (inert : isInert parser.current = true) :
    Reading.advance.Crosses room depth depth parser :=
  advance (going_of_isInert inert) (plain_of_isInert inert) (depthAfter_of_isInert inert)

theorem collect {stop : Token → Bool} {item : Reading (List α)} (advances : Advances stop item)
    (items : ∀ parser, stop parser.current = false → item.Crosses room depth depth parser) :
    (Reading.collect stop item).Crosses room depth depth parser := by
  let relation (_ : List α) (problems : List Diagnostic) (parser last : Parser) : Prop :=
    Crossing room False (problems = []) depth depth parser.ahead last.ahead
  refine @collect_induction α stop item relation advances (fun _ _ => .refl) ?_ parser
  intro parser found problems last going later
  exact ((items parser going).trans later).congr (by simp) List.append_eq_nil_iff.1

/-- Behind a problem that is reported only what makes a declaration important matters. -/
theorem reporting {problem : Problem} {next : Unit → Reading β}
    (far : Crossing room False False depth after parser.ahead ((next ()) parser).2.ahead) :
    (Reading.report problem >>= next).Crosses room depth after parser := by
  have stays := ((Reading.report problem).follows parser).eq_withErrors
    (ahead_report problem parser)
  have same : ((Reading.report problem >>= next) parser).2.ahead = ((next ()) parser).2.ahead := by
    rw [bind_apply, stays, ((next _).uniform parser).ahead_eq]
  have loud : (Reading.report problem >>= next).found parser ≠ [] := by
    rw [found_bind]
    simp
  unfold Crosses
  rw [same]
  exact far.congr Iff.rfl fun quiet => absurd quiet loud

end Crosses

end CssSyntax.Reading

namespace CssSyntax.Grammar

open Reading

variable {parser : Parser} {room depth after : Nat}

section Values

theorem take_crosses {span : List Token → Nat}
    (inert : ∀ token ∈ parser.ahead.take (span parser.ahead), isInert token = true) :
    (take span).Crosses room depth depth parser :=
  .of_inert (List.take_append_drop _ _).symm inert

theorem tokenValue_crosses {meaning : Bytes → Value}
    (going : endsDeclaration parser.current = false)
    (other : parser.current.kind ≠ .exclamation)
    (level : depthAfter room depth parser.current = depth) :
    (tokenValue meaning).Crosses room depth depth parser :=
  .current (.bind (.advance going other level) .pure)

theorem droppedValue_crosses (going : endsDeclaration parser.current = false)
    (plain : ¬MakesImportant depth (line parser.ahead))
    (level : depthAfter room depth parser.current = depth) :
    droppedValue.Crosses room depth depth parser := by
  have split : parser.ahead = parser.current :: (parser.skip 1).ahead :=
    Parser.ahead_eq_skip (kind_ne_of_going (fun _ _ => rfl) going)
  rw [split, line_cons going] at plain
  have step : Crossing room False False depth _ (parser.current :: (parser.skip 1).ahead) _ :=
    .cons going plain False.elim
  rw [level, ← split] at step
  exact .reporting step

theorem refusedArguments_crosses : refusedArguments.Crosses room (room + 1) room parser :=
  .reporting (group_crossing 0 parser.ahead)

theorem glued_inert (stop : Nat) (tokens : List Token) :
    ∀ token ∈ tokens.take (Span.glued stop tokens), isInert token = true := by
  intro token member
  rcases Span.glued_kinds stop token member with is | is <;> simp [isInert, is]

theorem inertValue_crosses {meaning : Bytes → Value} (inert : isInert parser.current = true) :
    (tokenValue meaning).Crosses room depth depth parser :=
  tokenValue_crosses (going_of_isInert inert) (plain_of_isInert inert) (depthAfter_of_isInert inert)

theorem hashValue_crosses (is : parser.current.kind = .hash) :
    hashValue.Crosses room depth depth parser := by
  have inert : isInert parser.current = true := by simp [isInert, is]
  exact .current (.bind (.advance_inert inert) (.returning (take_crosses (glued_inert _ _))))

theorem isInert_of_mark {token : Token}
    (mark : (Parser.isSign token || token.kind == .dot) = true) : isInert token = true := by
  rcases Parser.kind_of_mark mark with is | is | is <;> simp [isInert, is]

/-- Where a value starts with a number, what it takes is inert. -/
theorem numericValue_inert (less : Nat)
    (starts : parser.current.kind = .number ∨ parser.startsNumeric = true) :
    ∃ front, parser.ahead = front ++ (value less parser).2.ahead ∧
      ∀ token ∈ front, isInert token = true := by
  obtain ⟨marks, number, unit, rest, whole, before, is, carried, read⟩ := exists_numeric less starts
  refine ⟨marks ++ number :: unit, ?_, ?_⟩
  · rw [read, whole]
  refine List.forall_mem_append.2 ⟨?_, List.forall_mem_cons.2 ⟨?_, ?_⟩⟩
  · rcases before with rfl | before
    · exact List.forall_mem_nil _
    · exact fun token first => isInert_of_mark (before.mark token first)
  · simp [isInert, is]
  · rcases carried with rfl | ⟨token, rfl, percentage | ⟨name, -⟩⟩
    · exact List.forall_mem_nil _
    · simp [isInert, percentage]
    · simp [isInert, name]

theorem numericValue_crosses {less : Nat}
    (starts : parser.current.kind = .number ∨ parser.startsNumeric = true) :
    (value less).Crosses room depth depth parser := by
  obtain ⟨front, split, inert⟩ := numericValue_inert less starts
  exact .of_inert split inert

theorem opening_crosses (is : parser.current.kind = .openParen) :
    advance.Crosses room depth (depth + 1) parser := by
  refine .advance ?_ ?_ ?_
  · simp [endsDeclaration, is]
  · simp [is]
  · simp [depthAfter, is]

section Calls

variable {arguments : Reading (List Value)}
  (inner : ∀ parser, arguments.Crosses room (depth + 1) depth parser)
include inner

theorem groupValue_crosses (is : parser.current.kind = .openParen) :
    (groupValue arguments).Crosses room depth depth parser :=
  .bind (opening_crosses is) (.returning (inner _))

theorem nameValue_crosses (name : parser.current.kind = .ident) :
    (nameValue arguments).Crosses room depth depth parser := by
  have inert : isInert parser.current = true := by simp [isInert, name]
  refine .look (.ite (fun opens => ?_) fun _ => inertValue_crosses inert)
  have is : (parser.skip 1).current.kind = .openParen := by
    rw [Parser.current_skip]
    exact nextIs_iff.1 opens
  have group : (groupValue arguments).Crosses room depth depth (parser.skip 1) :=
    groupValue_crosses inner is
  exact .current (.bind (.advance_inert inert) group)

/-- A value leaves as many groups open as there were. A parenthesis that closes one is met outside
of all of them only. -/
theorem valueWith_crosses (fits : depth ≤ room) (going : endsDeclaration parser.current = false)
    (closes : parser.current.kind = .closeParen → depth = 0)
    (plain : ¬MakesImportant depth (line parser.ahead))
    (other : ¬(parser.current.kind = .number ∨ parser.startsNumeric = true)) :
    (valueWith arguments).Crosses room depth depth parser := by
  have mark (inert : isInert parser.current = true) :
      (some <$> markValue).Crosses room depth depth parser :=
    .map (.look (.ite (fun starts => absurd (.inr starts) other) fun _ => inertValue_crosses inert))
  apply Crosses.current
  split
  next is => exact absurd (.inl is) other
  next is => exact mark (by simp [isInert, is])
  next is => exact mark (by simp [isInert, is])
  next is => exact mark (by simp [isInert, is])
  next is => exact .map (nameValue_crosses inner is)
  next is => exact .map (inertValue_crosses (by simp [isInert, is]))
  next is => exact .map (inertValue_crosses (by simp [isInert, is]))
  next is => exact .map (groupValue_crosses inner is)
  next is => exact .map (hashValue_crosses is)
  next is => exact droppedValue_crosses going plain (by simp [depthAfter, is])
  next is => exact droppedValue_crosses going plain (by simp [depthAfter, is, fits])
  next is => exact droppedValue_crosses going plain (by simp [depthAfter, is])
  next is => simp [endsDeclaration, is] at going
  next =>
    refine .map (tokenValue_crosses going (by assumption) ?_)
    by_cases is : parser.current.kind = .closeParen
    · simp [depthAfter, is, closes is]
    · unfold depthAfter
      split <;> simp_all

end Calls

/-- Inside of a group nothing makes a declaration important. -/
theorem not_makesImportant_inside (tokens : List Token) : ¬MakesImportant (depth + 1) tokens :=
  fun important => Nat.succ_ne_zero depth important.1

theorem endsArguments_iff {token : Token} :
    endsArguments token = true ↔ token.kind = .closeParen ∨ endsDeclaration token = true := by
  simp only [endsArguments, endsDeclaration, Bool.or_eq_true, beq_iff_eq]
  grind

theorem line_of_current (ends : endsDeclaration parser.current = true) :
    line parser.ahead = [] := by
  obtain ⟨settings, ahead, finish, errors⟩ := parser
  cases ahead with
  | nil => rfl
  | cons token rest => exact line_of_ends ends

theorem closeArguments_crosses (stops : endsArguments parser.current = true) :
    closeArguments.Crosses room (depth + 1) depth parser := by
  have ended (other : parser.current.kind ≠ .closeParen) {problem : Problem} :
      (report problem).Crosses room (depth + 1) depth parser := by
    have ends := (endsArguments_iff.1 stops).resolve_left other
    rw [← bind_pure (report problem)]
    exact .reporting (.ended (line_of_current ends))
  refine .current (.ite (fun closes => ?_) fun other =>
    .ite (fun _ => ended other) fun _ => ended other)
  refine .advance ?_ ?_ ?_
  · simp [endsDeclaration, closes]
  · simp [closes]
  · simp [depthAfter, closes]

theorem separatedValue_crosses {value : Reading (Option Value)}
    (crosses : value.Crosses room depth depth parser) :
    (separatedValue value).Crosses room depth depth parser := by
  refine .current (.ite (fun separates => ?_) fun _ => .returning crosses)
  have inert : isInert parser.current = true := by
    rcases separates with is | is <;> simp [isInert, is]
  exact .bind (.advance_inert inert) .pure

theorem value_crosses {less : Nat} (fits : depth ≤ room)
    (inner : ∀ parser, (arguments less).Crosses room (depth + 1) depth parser)
    (going : endsDeclaration parser.current = false)
    (closes : parser.current.kind = .closeParen → depth = 0)
    (plain : ¬MakesImportant depth (line parser.ahead)) :
    (value less).Crosses room depth depth parser := by
  by_cases starts : parser.current.kind = .number ∨ parser.startsNumeric = true
  · exact numericValue_crosses starts
  · exact valueWith_crosses inner fits going closes plain starts

/-- The arguments of a call go on to the parenthesis that closes it, or to where the declaration
ends. -/
theorem arguments_crosses (less : Nat) {depth : Nat} (fits : depth + less = room)
    (parser : Parser) : (arguments less).Crosses room (depth + 1) depth parser := by
  -- On the room that is left: a call inside of these arguments has less of it.
  induction less generalizing depth parser with
  | zero =>
    obtain rfl : depth = room := fits
    exact refusedArguments_crosses
  | succ less ih =>
    have inner (parser : Parser) : (arguments less).Crosses room (depth + 2) (depth + 1) parser :=
      ih (by omega) parser
    have items (parser : Parser) (going : endsArguments parser.current = false) :
        (separatedValue (value less)).Crosses room (depth + 1) (depth + 1) parser := by
      obtain ⟨inside, further⟩ : parser.current.kind ≠ .closeParen ∧
          ¬endsDeclaration parser.current = true := by
        rw [← not_or, ← endsArguments_iff, going]
        exact Bool.false_ne_true
      exact separatedValue_crosses (value_crosses (by omega) inner
        (Bool.eq_false_iff.2 further) (fun is => absurd is inside) (not_makesImportant_inside _))
    refine .bind (.collect separatedValue_advances items) (.returning (closeArguments_crosses ?_))
    exact collect_stops separatedValue_advances parser

end Values

section Declarations

/-- A `!` with the word `important` behind it. -/
theorem Crossing.pair {quiet : Prop} {mark word : Token} {rest : List Token}
    (is : mark.kind = .exclamation) (spells : word.isWord Word.importantWord = true) :
    Crossing room True quiet 0 0 (mark :: word :: rest) rest := by
  have first : endsDeclaration mark = false := by simp [endsDeclaration, is]
  have name : isInert word = true := by simp [isInert, kind_of_isWord spells]
  have second := going_of_isInert name
  have important : MakesImportant 0 (mark :: word :: line rest) :=
    ⟨rfl, mark, word, line rest, rfl, is, spells⟩
  refine ⟨⟨[mark, word], rfl, by simp [first, second]⟩, ?_, fun _ => ?_⟩
  · rw [line_cons first, line_cons second, somewhere_cons]
    simp [important]
  · have flat : depthAfter room 0 mark = 0 := by simp [depthAfter, is]
    rw [line_cons first, line_cons second, somewhere_cons_of_not fun stray => stray.2 important,
      flat, somewhere_cons_of_not (not_stray (plain_of_isInert name)), depthAfter_of_isInert name]
    exact id

theorem importantFollows_iff :
    (importantFollows parser).1 = true ↔
      parser.current.kind = .exclamation ∧ parser.next.isWord Word.importantWord = true :=
  Bool.and_eq_true_iff.trans (and_congr_left fun _ => currentIs_iff)

theorem importantFollows_of_makesImportant (important : MakesImportant 0 (line parser.ahead)) :
    (importantFollows parser).1 = true := by
  obtain ⟨-, mark, word, more, split, is, spells⟩ := important
  obtain ⟨rest, whole⟩ := List.takeWhile_prefix (l := parser.ahead)
    fun token => !endsDeclaration token
  have ahead : parser.ahead = mark :: word :: (more ++ rest) := by
    rw [← whole]
    exact congrArg (· ++ rest) split
  have first : parser.current = mark := by
    unfold Parser.current Parser.nth
    rw [ahead]
    rfl
  have second : parser.next = word := by
    unfold Parser.next Parser.nth
    rw [ahead]
    rfl
  rw [importantFollows_iff, first, second]
  exact ⟨is, spells⟩

/-- A part of a declaration is what makes it important, or it is a value. -/
theorem declarationPart_crossing (going : endsDeclaration parser.current = false) :
    Crossing room ((declarationPart (value room) parser).1.any DeclarationPart.isImportant = true)
      ((declarationPart (value room)).found parser = []) 0 0 parser.ahead
      (declarationPart (value room) parser).2.ahead := by
  by_cases follows : (importantFollows parser).1 = true
  · obtain ⟨is, spells⟩ := importantFollows_iff.1 follows
    have run : declarationPart (value room) parser = ([.important], (parser.skip 1).skip 1) := by
      rw [declarationPart, bind_apply, if_pos follows]
      rfl
    have split : parser.ahead =
        parser.current :: parser.next :: ((parser.skip 1).skip 1).ahead := by
      rw [← Parser.current_skip, ← Parser.ahead_eq_skip, ← Parser.ahead_eq_skip]
      · simp [is]
      · simp [Parser.current_skip, kind_of_isWord spells]
    rw [run, split]
    exact (Crossing.pair is spells).congr (by simp [DeclarationPart.isImportant]) id
  · have plain : ¬MakesImportant 0 (line parser.ahead) := fun important =>
      follows (importantFollows_of_makesImportant important)
    have part : declarationPart (value room) parser =
        ((separatedValue (value room) parser).1.map .atom,
          (separatedValue (value room) parser).2) := by
      rw [declarationPart, bind_apply, if_neg follows]
      rfl
    have crosses : (separatedValue (value room)).Crosses room 0 0 parser :=
      separatedValue_crosses (value_crosses (Nat.zero_le room)
        (arguments_crosses room (Nat.zero_add room)) going (fun _ => rfl) plain)
    have quiet : (declarationPart (value room)).found parser =
        (separatedValue (value room)).found parser := by
      rw [declarationPart, found_bind, if_neg follows]
      change [] ++ ((separatedValue (value room) >>= _).found parser) = _
      rw [found_bind]
      exact List.append_nil _
    have none : ((separatedValue (value room) parser).1.map DeclarationPart.atom).any
        DeclarationPart.isImportant = true ↔ False := by
      simp [DeclarationPart.isImportant]
    rw [part, quiet]
    exact crosses.congr none id

/-- The parts of a declaration go on to the token that ends it. -/
theorem parts_crossing (parser : Parser) :
    Crossing room ((collect endsDeclaration (declarationPart (value room)) parser).1.any
        DeclarationPart.isImportant = true)
      ((collect endsDeclaration (declarationPart (value room))).found parser = []) 0 0 parser.ahead
      (collect endsDeclaration (declarationPart (value room)) parser).2.ahead := by
  let relation (parts : List DeclarationPart) (problems : List Diagnostic)
      (parser last : Parser) : Prop :=
    Crossing room (parts.any DeclarationPart.isImportant = true) (problems = []) 0 0 parser.ahead
      last.ahead
  refine @collect_induction _ endsDeclaration (declarationPart (value room)) relation
    declarationPart_advances (fun _ _ => Crossing.refl.congr (by simp) id) ?_ parser
  intro parser parts problems last going later
  refine ((declarationPart_crossing going).trans later).congr ?_ List.append_eq_nil_iff.1
  rw [List.any_append, Bool.or_eq_true]

/-- What stands between the colon of a declaration and its end, and what it tells of it. -/
theorem declarationBody_important (room : Nat) (key : Bytes) (parser : Parser) :
    ∃ body, parser.ahead = body ++ (declarationBody room key parser).2.ahead ∧
      (∀ token ∈ body, endsDeclaration token = false) ∧
      endsDeclaration (declarationBody room key parser).2.current = true ∧
      (Somewhere room Stray 0 body → (declarationBody room key).found parser ≠ []) ∧
      ∀ declaration ∈ (declarationBody room key parser).1,
        (declaration.important = true ↔ Somewhere room MakesImportant 0 body) := by
  have advances : Advances endsDeclaration (declarationPart (value room)) :=
    declarationPart_advances
  have ends := collect_stops advances parser
  have crossing : Crossing room _ _ 0 0 parser.ahead _ := parts_crossing parser
  obtain ⟨body, whole, going⟩ := crossing.within
  have finish : line (collect endsDeclaration (declarationPart (value room)) parser).2.ahead = [] :=
    line_of_current ends
  have inner : line parser.ahead = body := by
    have plain : ∀ token ∈ body, (!endsDeclaration token) = true := by simpa using going
    rw [whole, line, List.takeWhile_append_of_pos plain]
    exact (congrArg (body ++ ·) finish).trans (List.append_nil body)
  have important := crossing.important
  have stray := crossing.stray
  rw [inner, finish] at important stray
  have loud (is : Somewhere room Stray 0 body) :
      (declarationBody room key).found parser ≠ [] := by
    rw [declarationBody, found_bind]
    intro quiet
    exact not_somewhere_nil (stray (List.append_eq_nil_iff.1 quiet).1 is)
  refine ⟨body, ?_, going, ?_, loud, ?_⟩
  · rw [declarationBody, bind_apply]
    dsimp only
    split
    · change parser.ahead = body ++ (report .noValue _).2.ahead
      rwa [ahead_report]
    · exact whole
  · rw [declarationBody, bind_apply]
    dsimp only
    split
    · change endsDeclaration (report .noValue _).2.current = true
      rwa [current_report]
    · exact ends
  · rw [declarationBody, bind_apply]
    dsimp only
    split
    · exact fun declaration member => absurd member (Option.not_mem_none declaration)
    · intro declaration member
      obtain rfl := Option.some.inj member
      rw [important]
      exact (or_iff_left not_somewhere_nil).symm

/-- Where a declaration is read, its tokens go on to the first one that ends it. A `!` outside of
groups with the word `important` right behind it makes it important, wherever it stands, and
nothing else does. Any other `!` is a problem. -/
theorem declaration_important (unlimited : parser.settings.maxErrors = none)
    (name : parser.current.kind = .ident) (colon : parser.next.kind = .colon) :
    ∃ key mark body, (declaration room).taken parser = key :: mark :: body ∧
      (∀ token ∈ body, endsDeclaration token = false) ∧
      endsDeclaration (declaration room parser).2.current = true ∧
      (Somewhere room Stray 0 body →
        parser.errors.length < (declaration room parser).2.errors.length) ∧
      ∀ found, (declaration room parser).1 = some found →
        (found.important = true ↔ Somewhere room MakesImportant 0 body) := by
  have mark : (parser.skip 1).current.kind = .colon := by rwa [Parser.current_skip]
  have run : declaration room parser =
      declarationBody room parser.current.literal ((parser.skip 1).skip 1) := by
    rw [declaration, current_apply, if_pos name, bind_apply]
    change (expect _ _ >>= _ : Reading (Option Declaration)) (parser.skip 1) = _
    rw [expect_bind, current_apply, if_pos mark]
    rfl
  have first : parser.ahead = parser.current :: (parser.skip 1).ahead :=
    Parser.ahead_eq_skip (by simp [name])
  have second : (parser.skip 1).ahead =
      (parser.skip 1).current :: ((parser.skip 1).skip 1).ahead :=
    Parser.ahead_eq_skip (by simp [mark])
  obtain ⟨body, whole, going, ends, stray, important⟩ :=
    declarationBody_important room parser.current.literal ((parser.skip 1).skip 1)
  have errors := errors_eq (declarationBody room parser.current.literal) ((parser.skip 1).skip 1)
  refine ⟨parser.current, (parser.skip 1).current, body, ?_, going, ?_, fun is => ?_, ?_⟩
  · apply taken_eq
    rw [run, first, second, whole]
    rfl
  · rwa [run]
  · have some := List.length_pos_iff.2 (stray is)
    rw [run, errors]
    change _ < (capped parser.settings.maxErrors parser.errors _).length
    rw [unlimited]
    simp only [capped, List.length_append]
    omega
  · rw [run]
    exact important

/-- A pair inside of a call, which is a problem, and one between two values. -/
theorem declaration_important_between :
    ∃ parser found, parser = Parser.ofTokens .standard (tokenize
        (utf8 "a:f(!important)!important b")) ∧
      (declaration 1 parser).1 = some found ∧ found.important = true ∧
      parser.errors.length < (declaration 1 parser).2.errors.length := by
  have tokens : tokenize (utf8 "a:f(!important)!important b") =
      [⟨.ident, utf8 "a", ⟨1, 1, 0⟩⟩, ⟨.colon, utf8 ":", ⟨1, 2, 1⟩⟩, ⟨.ident, utf8 "f", ⟨1, 3, 2⟩⟩,
        ⟨.openParen, utf8 "(", ⟨1, 4, 3⟩⟩, ⟨.exclamation, utf8 "!", ⟨1, 5, 4⟩⟩,
        ⟨.ident, utf8 "important", ⟨1, 6, 5⟩⟩, ⟨.closeParen, utf8 ")", ⟨1, 15, 14⟩⟩,
        ⟨.exclamation, utf8 "!", ⟨1, 16, 15⟩⟩, ⟨.ident, utf8 "important", ⟨1, 17, 16⟩⟩,
        ⟨.ident, utf8 "b", ⟨1, 27, 26⟩⟩, .endOfInput ⟨1, 28, 27⟩] := by
    decide +kernel
  obtain ⟨parser, is⟩ : ∃ parser, parser = Parser.ofTokens .standard (tokenize
    (utf8 "a:f(!important)!important b")) := ⟨_, rfl⟩
  have some : (declaration 1 parser).1.isSome = true := by
    rw [is, tokens]
    decide +kernel
  have taken : (declaration 1).taken parser =
      (tokenize (utf8 "a:f(!important)!important b")).dropLast := by
    rw [is, tokens]
    decide +kernel
  obtain ⟨found, read⟩ := Option.isSome_iff_exists.1 some
  obtain ⟨key, mark, body, whole, -, -, stray, important⟩ :=
    @declaration_important parser 1 (by rw [is, tokens]; rfl) (by rw [is, tokens]; rfl)
      (by rw [is, tokens]; rfl)
  rw [taken, tokens] at whole
  obtain ⟨-, rest⟩ := List.cons.inj whole
  obtain ⟨-, rfl⟩ := List.cons.inj rest
  refine ⟨parser, found, is, read, (important found read).2 ?_, stray ?_⟩
  · exact ⟨_, _, _, (List.take_append_drop 5 _).symm, rfl, _, _, _, rfl, rfl, rfl⟩
  · exact ⟨_, _, _, (List.take_append_drop 2 _).symm, ⟨_, rfl, rfl⟩,
      fun inside => absurd inside.1 (by decide)⟩

/-- The word that makes a declaration important need not come last. -/
theorem important_before_value :
    ¬∀ room parser found, parser.settings.maxErrors = none → parser.current.kind = .ident →
      parser.next.kind = .colon → (declaration room parser).1 = some found →
        (found.important = true ↔ ∃ front mark word comments,
          (declaration room).taken parser = front ++ mark :: word :: comments ∧
            mark.kind = .exclamation ∧ word.isWord Word.importantWord = true ∧
              ∀ token ∈ comments, token.kind = .comment) := by
  intro all
  have tokens : tokenize (utf8 "b:!important c") =
      [⟨.ident, utf8 "b", ⟨1, 1, 0⟩⟩, ⟨.colon, utf8 ":", ⟨1, 2, 1⟩⟩,
        ⟨.exclamation, utf8 "!", ⟨1, 3, 2⟩⟩, ⟨.ident, utf8 "important", ⟨1, 4, 3⟩⟩,
        ⟨.ident, utf8 "c", ⟨1, 14, 13⟩⟩, .endOfInput ⟨1, 15, 14⟩] := by
    decide +kernel
  obtain ⟨parser, is⟩ : ∃ parser, parser = Parser.ofTokens .standard (tokenize
    (utf8 "b:!important c")) := ⟨_, rfl⟩
  have flag : (declaration 0 parser).1.map Declaration.important = some true := by
    rw [is, tokens]
    decide +kernel
  have taken : (declaration 0).taken parser = (tokenize (utf8 "b:!important c")).dropLast := by
    rw [is, tokens]
    decide +kernel
  obtain ⟨found, read, important⟩ := Option.map_eq_some_iff.1 flag
  obtain ⟨front, mark, word, comments, whole, -, spells, plain⟩ :=
    (all 0 parser found (by rw [is, tokens]; rfl) (by rw [is, tokens]; rfl)
      (by rw [is, tokens]; rfl) read).1 important
  rw [taken, tokens] at whole
  have last := congrArg List.getLast? whole
  rcases List.eq_nil_or_concat comments with rfl | ⟨others, comment, rfl⟩
  · rw [List.getLast?_append_cons] at last
    obtain rfl := Option.some.inj last
    exact absurd spells (by decide)
  · have kind := plain comment (by simp)
    rw [List.getLast?_append_cons, List.getLast?_cons_cons, List.concat_eq_append,
      ← List.cons_append, List.getLast?_concat] at last
    obtain rfl := Option.some.inj last
    exact absurd kind (by decide)

end Declarations

end CssSyntax.Grammar

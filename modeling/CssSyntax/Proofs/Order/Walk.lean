import CssSyntax.Grammar.Declaration
import CssSyntax.Proofs.Parser.Quiet
import CssSyntax.Proofs.Token.Tiling
import Mathlib.Data.Prod.Lex

/-! In which order problems are found. A walk goes over the tokens from one place to a later one and
meets problems at the tokens on its way, each at the token where it then is. The one step back is
for a clause that an import has already: its problem stands at the word that the clause starts with,
and comes after the problems inside of the clause. -/

namespace CssSyntax

/-- Lines first, then columns. -/
def Position.place (position : Position) : Lex (Nat × Nat) := toLex (position.line, position.column)

namespace Diagnostic

/-- Lines first, then columns. -/
def place (diagnostic : Diagnostic) : Lex (Nat × Nat) :=
  toLex (diagnostic.line, diagnostic.column)

/-- The place is that of the token, and the kind too. -/
def StandsAt (diagnostic : Diagnostic) (token : Token) : Prop :=
  diagnostic.line = token.start.line ∧ diagnostic.column = token.start.column ∧
    diagnostic.token = token.kind

theorem ofToken_standsAt (problem : Problem) (token : Token) :
    (ofToken problem token).StandsAt token :=
  ⟨rfl, rfl, rfl⟩

theorem StandsAt.place_eq {diagnostic : Diagnostic} {token : Token}
    (stands : diagnostic.StandsAt token) : diagnostic.place = token.start.place := by
  obtain ⟨line, column, -⟩ := stands
  unfold place Position.place
  rw [line, column]

end Diagnostic

section Places

theorem Position.place_le_next (position : Position) (byte : UInt8) :
    position.place ≤ (position.next byte).place := by
  unfold next place
  split
  next => exact Prod.Lex.toLex_le_toLex.2 (.inl (Nat.lt_succ_self _))
  next => exact Prod.Lex.toLex_le_toLex.2 (.inr ⟨rfl, Nat.le_succ _⟩)

theorem Position.place_le_after (position : Position) (bytes : Bytes) :
    position.place ≤ (position.after bytes).place := by
  induction bytes generalizing position with
  | nil => exact le_refl _
  | cons byte rest ih => exact (position.place_le_next byte).trans (ih _)

variable {position : Position} {source : Bytes} {tokens : List Token}

theorem Tiles.place_le (tiles : Tiles position source tokens) :
    ∀ token ∈ tokens, position.place ≤ token.start.place := by
  induction tiles with
  | finish => exact List.forall_mem_singleton.2 (Position.place_le_after _ _)
  | token blank written real tail ih =>
    refine List.forall_mem_cons.2 ⟨Position.place_le_after _ _, fun token member => ?_⟩
    have start := (Position.place_le_after _ _).trans (ih token member)
    exact (Position.place_le_after _ _).trans start

theorem Tiles.places_ordered (tiles : Tiles position source tokens) :
    tokens.Pairwise fun left right => left.start.place ≤ right.start.place := by
  induction tiles with
  | finish => exact List.pairwise_singleton _ _
  | token blank written real tail ih =>
    refine List.pairwise_cons.2 ⟨fun later member => ?_, ih⟩
    exact (Position.place_le_after _ _).trans (tail.place_le later member)

end Places

/-- The statement that the tokens end in has met the word. -/
def MetWord (word : Bytes) (front : List Token) : Prop :=
  ∃ before first between, front = before ++ first :: between ∧ first.isWord word = true ∧
    ∀ token ∈ between, Grammar.endsDeclaration token = false

theorem MetWord.further {word : Bytes} {front more : List Token} (seen : MetWord word front)
    (going : ∀ token ∈ more, Grammar.endsDeclaration token = false) :
    MetWord word (front ++ more) := by
  obtain ⟨before, first, between, rfl, spells, inside⟩ := seen
  refine ⟨before, first, between ++ more, ?_, spells, List.forall_mem_append.2 ⟨inside, going⟩⟩
  rw [List.append_assoc, List.cons_append]

/-- The clause starts with the word of one that its import has already. -/
def RepeatedAfter (front : List Token) (clause : Token) : Prop :=
  ∃ word, (word = Word.layerWord ∨ word = Word.supportsWord) ∧ clause.isWord word = true ∧
    MetWord word front

/-- The problem of a clause that an import has already. -/
def repeatedClause (clause : Token) : Diagnostic := .ofToken (.misplaced "import rule") clause

/-- The tokens from one place on, the problems on the way and the tokens from a later place on. If
all tokens are given, clauses may be repeated on the way. -/
inductive Walk : Option (List Token) → List Token → List Diagnostic → List Token → Prop where
  | stay {all : Option (List Token)} {here : List Token} : Walk all here [] here
  | pass {all : Option (List Token)} {token : Token} {rest there : List Token}
      {found : List Diagnostic} (more : Walk all rest found there) :
      Walk all (token :: rest) found there
  | report {all : Option (List Token)} {token : Token} {rest there : List Token}
      {found : List Diagnostic} (problem : Problem) (more : Walk all (token :: rest) found there) :
      Walk all (token :: rest) (.ofToken problem token :: found) there
  | again {front inside behind there : List Token} {clause : Token} {inner found : List Diagnostic}
      (repeated : RepeatedAfter front clause)
      (going : ∀ token ∈ inside, Grammar.endsDeclaration token = false)
      (near : Walk none (clause :: (inside ++ behind)) inner behind)
      (far : Walk (some (front ++ clause :: (inside ++ behind))) behind found there) :
      Walk (some (front ++ clause :: (inside ++ behind))) (clause :: (inside ++ behind))
        (inner ++ repeatedClause clause :: found) there

namespace Walk

variable {all : Option (List Token)} {here middle there : List Token}
variable {first second found : List Diagnostic}

theorem append (near : Walk all here first middle) (far : Walk all middle second there) :
    Walk all here (first ++ second) there := by
  induction near with
  | stay => exact far
  | pass _ ih => exact .pass (ih far)
  | report problem _ ih => exact .report problem (ih far)
  | again repeated going near _ _ ih =>
    rw [List.append_assoc, List.cons_append]
    exact .again repeated going near (ih far)

theorem of_suffix (part : there <:+ here) : Walk all here [] there := by
  obtain ⟨front, rfl⟩ := part
  induction front with
  | nil => exact .stay
  | cons token front ih => exact .pass ih

theorem suffix (walk : Walk all here found there) : there <:+ here := by
  induction walk with
  | stay => exact List.suffix_refl _
  | pass _ ih => exact ih.trans (List.suffix_cons _ _)
  | report _ _ ih => exact ih
  | again _ _ _ _ near far => exact far.trans near

/-- Where clauses are not repeated, they may be. -/
theorem lift (walk : Walk none here found there) : Walk all here found there := by
  generalize plain : (none : Option (List Token)) = index at walk
  induction walk with
  | stay => exact .stay
  | pass _ ih => exact .pass (ih plain)
  | report problem _ ih => exact .report problem (ih plain)
  | again => exact nomatch plain

/-- Problems stand on the way. -/
theorem stands (walk : Walk all here found there) :
    ∀ error ∈ found, ∃ token rest, token :: rest <:+ here ∧ there <:+ token :: rest ∧
      error.StandsAt token := by
  induction walk with
  | stay => exact List.forall_mem_nil _
  | pass _ ih =>
    intro error member
    obtain ⟨token, rest, after, before, is⟩ := ih error member
    exact ⟨token, rest, after.trans (List.suffix_cons _ _), before, is⟩
  | report problem more ih =>
    refine List.forall_mem_cons.2 ⟨?_, ih⟩
    exact ⟨_, _, List.suffix_refl _, more.suffix, Diagnostic.ofToken_standsAt _ _⟩
  | again _ _ near far inner outer =>
    refine List.forall_mem_append.2 ⟨fun error member => ?_, List.forall_mem_cons.2 ⟨?_, ?_⟩⟩
    · obtain ⟨token, rest, after, before, is⟩ := inner error member
      exact ⟨token, rest, after, far.suffix.trans before, is⟩
    · have behind := far.suffix.trans near.suffix
      exact ⟨_, _, List.suffix_refl _, behind, Diagnostic.ofToken_standsAt _ _⟩
    · intro error member
      obtain ⟨token, rest, after, before, is⟩ := outer error member
      exact ⟨token, rest, after.trans near.suffix, before, is⟩

end Walk

/-- `later` is the problem of a clause that its import has already, and `earlier` stands behind the
word of the clause, with neither a semicolon nor a `}` in between. -/
def RepeatsClause (tokens : List Token) (earlier later : Diagnostic) : Prop :=
  ∃ front clause inside token rest,
    tokens = front ++ clause :: (inside ++ token :: rest) ∧ RepeatedAfter front clause ∧
      (∀ token ∈ inside, Grammar.endsDeclaration token = false) ∧
      earlier.StandsAt token ∧ later = repeatedClause clause

namespace Walk

variable {all : Option (List Token)} {tokens here there : List Token} {found : List Diagnostic}

/-- What stands at the first token comes before what is met later. -/
theorem place_le {token : Token} {rest : List Token} {earlier later : Diagnostic}
    (ordered : (token :: rest).Pairwise fun left right => left.start.place ≤ right.start.place)
    (first : earlier.StandsAt token) (walk : Walk all here found there)
    (part : here <:+ token :: rest) (member : later ∈ found) : earlier.place ≤ later.place := by
  obtain ⟨other, behind, within, -, second⟩ := walk.stands later member
  rw [first.place_eq, second.place_eq]
  rcases List.mem_cons.1 ((within.trans part).subset List.mem_cons_self) with rfl | further
  · exact le_refl _
  · exact List.rel_of_pairwise_cons ordered further

/-- What stands inside of a repeated clause, or at its word. -/
theorem repeats_of_inner {front inside behind : List Token} {clause : Token}
    {inner : List Diagnostic} {earlier : Diagnostic} (repeated : RepeatedAfter front clause)
    (going : ∀ token ∈ inside, Grammar.endsDeclaration token = false)
    (near : Walk none (clause :: (inside ++ behind)) inner behind) (member : earlier ∈ inner) :
    earlier.place ≤ (repeatedClause clause).place ∨
      RepeatsClause (front ++ clause :: (inside ++ behind)) earlier (repeatedClause clause) := by
  obtain ⟨token, rest, ⟨before, split⟩, ⟨left, ends⟩, stands⟩ := near.stands earlier member
  cases before with
  | nil =>
    obtain ⟨rfl, rfl⟩ := List.cons.inj split
    rw [stands.place_eq]
    exact .inl (le_refl _)
  | cons head before =>
    obtain ⟨rfl, same⟩ := List.cons.inj split
    have whole : before ++ left = inside := by
      rw [List.append_eq, ← ends, ← List.append_assoc] at same
      exact List.append_cancel_right same
    refine .inr ⟨front, head, before, token, rest, ?_, repeated, fun other between => ?_, stands,
      rfl⟩
    · rw [← split, List.cons_append]
    · exact going other (whole ▸ List.mem_append_left left between)

/-- Problems come in the order of the tokens, apart from those of repeated clauses. -/
theorem forward (walk : Walk all here found there) (own : ∀ given ∈ all, given = tokens)
    (part : here <:+ tokens)
    (ordered : tokens.Pairwise fun left right => left.start.place ≤ right.start.place) :
    found.Pairwise fun earlier later =>
      earlier.place ≤ later.place ∨ RepeatsClause tokens earlier later := by
  induction walk with
  | stay => exact .nil
  | pass _ ih => exact ih own ((List.suffix_cons _ _).trans part)
  | report problem more ih =>
    refine List.pairwise_cons.2 ⟨fun later member => .inl ?_, ih own part⟩
    have sorted := ordered.sublist part.sublist
    exact place_le sorted (Diagnostic.ofToken_standsAt _ _) more (List.suffix_refl _) member
  | @again front inside behind _ clause inner found repeated going near far first second =>
    obtain rfl := own _ rfl
    have sorted := ordered.sublist part.sublist
    refine List.pairwise_append.2 ⟨first nofun part, List.pairwise_cons.2 ⟨?_, ?_⟩, ?_⟩
    · intro later member
      exact .inl (place_le sorted (Diagnostic.ofToken_standsAt _ _) far near.suffix member)
    · exact second own (near.suffix.trans part)
    · intro earlier early later late
      rcases List.mem_cons.1 late with rfl | late
      · exact repeats_of_inner repeated going near early
      · obtain ⟨token, rest, within, further, stands⟩ := near.stands earlier early
        refine .inl (place_le ?_ stands far further late)
        exact sorted.sublist within.sublist

end Walk

namespace Parser

/-- The tokens ahead with the one that marks the end. -/
def remaining (parser : Parser) : List Token := parser.ahead ++ [Token.endOfInput parser.finish]

theorem remaining_eq_cons (parser : Parser) :
    ∃ rest, parser.remaining = parser.current :: rest := by
  obtain ⟨settings, ahead, finish, errors⟩ := parser
  cases ahead with
  | nil => exact ⟨[], rfl⟩
  | cons token rest => exact ⟨rest ++ [Token.endOfInput finish], rfl⟩

theorem remaining_record (parser : Parser) (problem : Problem) (token : Token) :
    (parser.record problem token).remaining = parser.remaining := by
  rw [record_eq_step]
  rfl

theorem Follows.remaining {before after : Parser} (follows : before.Follows after) :
    after.remaining <:+ before.remaining := by
  obtain ⟨front, split⟩ := follows.ahead
  refine ⟨front, ?_⟩
  unfold Parser.remaining
  rw [follows.finish, ← List.append_assoc, split]

end Parser

namespace Reading

variable {α β σ : Type} {all : Option (List Token)} {parser : Parser}

theorem taken_remaining (reading : Reading α) (parser : Parser) :
    reading.taken parser ++ (reading parser).2.remaining = parser.remaining := by
  unfold Parser.remaining
  rw [(reading.follows parser).finish, ← List.append_assoc, taken_append]

/-- A reading that takes a token takes the current one first. -/
theorem Progresses.taken_eq_cons {reading : Reading α} (progress : reading.Progresses parser) :
    ∃ inside, reading.taken parser = parser.current :: inside := by
  have whole := taken_append reading parser
  cases front : reading.taken parser with
  | nil =>
    rw [front, List.nil_append] at whole
    exact absurd (congrArg List.length whole) (Nat.ne_of_lt progress)
  | cons token inside =>
    rw [front] at whole
    exact ⟨inside, by simp [Parser.current, Parser.nth, ← whole]⟩

/-- The problems that the reading finds are met on the way to where it stops. -/
def WalksFrom (reading : Reading α) (all : Option (List Token)) (parser : Parser) : Prop :=
  (∀ tokens ∈ all, parser.remaining <:+ tokens) →
    Walk all parser.remaining (reading.found parser) (reading parser).2.remaining

/-- The reading meets its problems on its way, wherever it starts. -/
def Walks (reading : Reading α) (all : Option (List Token)) : Prop :=
  ∀ parser, reading.WalksFrom all parser

namespace WalksFrom

variable {reading : Reading α} {following : α → Reading β}

theorem bind (near : reading.WalksFrom all parser)
    (far : (following (reading parser).1).WalksFrom all (reading parser).2) :
    (reading >>= following).WalksFrom all parser := by
  intro within
  rw [found_bind]
  refine (near within).append (far fun tokens given => ?_)
  exact (reading.follows parser).remaining.trans (within tokens given)

/-- A reading that finds no problem may go anywhere. -/
theorem quiet (none : reading.found parser = []) : reading.WalksFrom all parser := by
  intro _
  rw [none]
  exact .of_suffix (reading.follows parser).remaining

theorem current {following : Token → Reading β}
    (far : (following parser.current).WalksFrom all parser) :
    (Reading.current >>= following).WalksFrom all parser :=
  bind (quiet rfl) far

theorem look {seen : Parser → α} {blind}
    (far : (following (seen parser)).WalksFrom all parser) :
    (Reading.peek seen blind >>= following).WalksFrom all parser :=
  bind (quiet rfl) far

/-- A problem at the current token. -/
theorem report {problem : Problem} :
    (Reading.reportAt problem parser.current).WalksFrom all parser := by
  have stays : (Reading.reportAt problem parser.current parser).2.remaining = parser.remaining :=
    parser.remaining_record problem parser.current
  obtain ⟨rest, split⟩ := parser.remaining_eq_cons
  intro _
  rw [stays, found_reportAt, split]
  exact .report problem .stay

/-- What a loop walks, given what holds before each of its steps. -/
theorem iterate {stop : Token → Bool} {step : σ → Reading σ} {invariant : σ → Parser → Prop}
    (steps : ∀ state parser, stop parser.current = false → invariant state parser →
      (step state).WalksFrom all parser ∧ invariant (step state parser).1 (step state parser).2)
    {state : σ} (start : invariant state parser) :
    (Reading.iterate stop step state).WalksFrom all parser := by
  -- The loop goes on with fewer tokens ahead only.
  induction parser using (measure fun parser : Parser => parser.ahead.length).wf.induction
    generalizing state with
  | h parser ih =>
    rw [iterate_eq_compared]
    apply current
    split
    next => exact quiet rfl
    next going =>
      obtain ⟨near, kept⟩ := steps state parser (by simpa using going) start
      refine look (bind near (look ?_))
      split
      next shorter => exact ih _ shorter kept
      next => exact quiet rfl

end WalksFrom

namespace Walks

variable {reading : Reading α} {following : α → Reading β}

theorem bind (near : reading.Walks all) (far : ∀ value, (following value).Walks all) :
    (reading >>= following).Walks all :=
  fun parser => (near parser).bind (far _ _)

theorem lift (walks : reading.Walks none) : reading.Walks all :=
  fun parser _ => Walk.lift (walks parser nofun)

theorem pure {value : α} : (Pure.pure value : Reading α).Walks all := fun _ => .quiet rfl

theorem map {change : α → β} (walks : reading.Walks all) : (change <$> reading).Walks all :=
  walks

/-- Last a change of what was read. -/
theorem returning {change : α → β} (walks : reading.Walks all) :
    (reading >>= fun value => Pure.pure (change value)).Walks all :=
  bind walks fun _ => pure

theorem peek {look : Parser → α} {blind} : (Reading.peek look blind).Walks all :=
  fun _ => .quiet rfl

theorem current : Reading.current.Walks all := peek

theorem currentIs {kind : Kind} : (Reading.currentIs kind).Walks all := peek

theorem nextIs {kind : Kind} : (Reading.nextIs kind).Walks all := peek

theorem take {span : List Token → Nat} : (Reading.take span).Walks all := fun _ => .quiet rfl

theorem skip {span : List Token → Nat} : (Reading.skip span).Walks all := fun _ => .quiet rfl

theorem advance : Reading.advance.Walks all := skip

/-- First a step over the current token. -/
theorem advancing {following : Unit → Reading β} (far : (following ()).Walks all) :
    (Reading.advance >>= following).Walks all :=
  bind advance fun _ => far

theorem report {problem : Problem} : (Reading.report problem).Walks all :=
  fun _ => .current .report

/-- First a problem at the current token. -/
theorem reporting {problem : Problem} {following : Unit → Reading β}
    (far : (following ()).Walks all) : (Reading.report problem >>= following).Walks all :=
  bind report fun _ => far

theorem ite {condition : Prop} [Decidable condition] {yes no : Reading α}
    (first : condition → yes.Walks all) (second : ¬condition → no.Walks all) :
    (if condition then yes else no).Walks all := by
  split
  next holds => exact first holds
  next fails => exact second fails

theorem reportIf {condition : Bool} {problem : Problem} :
    (Reading.reportIf condition problem).Walks all :=
  ite (fun _ => report) fun _ => pure

theorem accept {kind : Kind} : (Reading.accept kind).Walks all :=
  bind currentIs fun _ => ite (fun _ => advancing pure) fun _ => pure

theorem acceptWord {word : Bytes} : (Reading.acceptWord word).Walks all :=
  bind current fun _ => ite (fun _ => advancing pure) fun _ => pure

theorem expect {kind : Kind} {problem : Problem} : (Reading.expect kind problem).Walks all :=
  bind accept fun _ => ite (fun _ => pure) fun _ => reporting pure

theorem collect {stop : Token → Bool} {item : Reading (List α)} (items : item.Walks all) :
    (Reading.collect stop item).Walks all := by
  intro parser
  induction parser using (measure fun parser : Parser => parser.ahead.length).wf.induction with
  | h parser ih =>
    rw [collect_eq_compared]
    apply WalksFrom.current
    split
    next => exact pure parser
    next =>
      refine .look (.bind (items parser) (.look ?_))
      split
      next shorter => exact .bind (ih _ shorter) (pure _)
      next => exact pure _

end Walks

end Reading

end CssSyntax

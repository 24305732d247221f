import CssSyntax.Proofs.Grammar.Progress
import CssSyntax.Proofs.Nesting.Skip
import CssSyntax.Proofs.Parser.Spans
import Mathlib.Data.List.TakeWhile

/-! Where a reading may go. A trail says which stretches of tokens may be taken with which problems
on the way, and two such stretches in a row may be taken as one. So it is enough to know what each
part of a production takes, and loops follow from their items. -/

namespace CssSyntax

/-- What is said of a stretch of tokens and of the problems that are found in it. -/
structure Trail where
  Allows : List Token → List Diagnostic → Prop
  staying : ∀ found, Allows [] found
  append : ∀ {first second near far}, Allows first near → Allows second far →
    Allows (first ++ second) (near ++ far)

/-- Tokens that no block or statement is told apart by, whatever is wrong with them. -/
def Trail.level : Trail where
  Allows tokens _ := ∀ token ∈ tokens, token.isStructural = false
  staying _ := List.forall_mem_nil _
  append near far := List.forall_mem_append.2 ⟨near, far⟩

namespace Span

theorem before_level {stop : Token → Bool}
    (stops : ∀ token, stop token = false → token.isStructural = false) (tokens : List Token) :
    ∀ token ∈ tokens.take (before stop tokens), token.isStructural = false := by
  intro token member
  rw [Grammar.take_before] at member
  have going := List.mem_takeWhile_imp member
  exact stops token (by simpa using going)

theorem comments_level (tokens : List Token) :
    ∀ token ∈ tokens.take (comments tokens), token.isStructural = false := by
  apply before_level
  intro token comment
  have is : token.kind = .comment := by simpa using comment
  exact Token.isStructural_of_kind is

end Span

namespace Reading

variable {α β : Type} {trail : Trail} {parser : Parser}

/-- What the reading takes may be taken with the problems that it finds. -/
def Keeps (reading : Reading α) (trail : Trail) (parser : Parser) : Prop :=
  trail.Allows (reading.taken parser) (reading.found parser)

namespace Keeps

variable {reading : Reading α} {following : α → Reading β}

theorem bind (near : reading.Keeps trail parser)
    (far : (following (reading parser).1).Keeps trail (reading parser).2) :
    (reading >>= following).Keeps trail parser := by
  unfold Keeps
  rw [taken_bind, found_bind]
  exact trail.append near far

theorem peek {look : Parser → α} {blind} : (Reading.peek look blind).Keeps trail parser := by
  unfold Keeps
  rw [taken_peek]
  exact trail.staying _

theorem pure {value : α} : (Pure.pure value : Reading α).Keeps trail parser := peek

theorem map {change : α → β} (keeps : reading.Keeps trail parser) :
    (change <$> reading).Keeps trail parser :=
  keeps

/-- Last a change of what was read. -/
theorem returning {change : α → β} (keeps : reading.Keeps trail parser) :
    (reading >>= fun found => Pure.pure (change found)).Keeps trail parser :=
  keeps.bind pure

theorem look {look : Parser → α} {blind} (far : (following (look parser)).Keeps trail parser) :
    (Reading.peek look blind >>= following).Keeps trail parser :=
  peek.bind far

theorem current {following : Token → Reading β}
    (far : (following parser.current).Keeps trail parser) :
    (Reading.current >>= following).Keeps trail parser :=
  look far

theorem ite {condition : Prop} [Decidable condition] {yes no : Reading β}
    (first : condition → yes.Keeps trail parser) (second : ¬condition → no.Keeps trail parser) :
    (if condition then yes else no).Keeps trail parser := by
  split
  next holds => exact first holds
  next fails => exact second fails

theorem skip {span : List Token → Nat}
    (allowed : trail.Allows (parser.ahead.take (span parser.ahead)) []) :
    (Reading.skip span).Keeps trail parser := by
  unfold Keeps
  rw [taken_skip, found_skip]
  exact allowed

theorem take {span : List Token → Nat}
    (allowed : trail.Allows (parser.ahead.take (span parser.ahead)) []) :
    (Reading.take span).Keeps trail parser := by
  unfold Keeps
  rw [taken_take, found_take]
  exact allowed

/-- At the end of the input there is no token to take. -/
theorem advance (allowed : trail.Allows [parser.current] []) :
    Reading.advance.Keeps trail parser := by
  refine skip ?_
  cases split : parser.ahead with
  | nil => exact trail.staying _
  | cons token rest =>
    have here : parser.current = token := by simp [Parser.current, Parser.nth, split]
    rwa [here] at allowed

theorem accept {kind : Kind}
    (allowed : parser.current.kind = kind → trail.Allows [parser.current] []) :
    (Reading.accept kind).Keeps trail parser := by
  refine look (ite (fun is => ?_) fun _ => pure)
  exact returning (advance (allowed (currentIs_iff.1 is)))

theorem acceptWord {word : Bytes}
    (allowed : parser.current.isWord word = true → trail.Allows [parser.current] []) :
    (Reading.acceptWord word).Keeps trail parser :=
  current (ite (fun is => returning (advance (allowed is))) fun _ => pure)

theorem report {problem : Problem} : (Reading.report problem).Keeps trail parser := by
  unfold Keeps
  rw [taken_report]
  exact trail.staying _

/-- A problem does not move the parser. -/
theorem reporting {problem : Problem} {following : Unit → Reading β}
    (far : (following ()).Keeps trail parser) :
    (Reading.report problem >>= following).Keeps trail parser := by
  have stays := ((Reading.report problem).follows parser).eq_withErrors
    (ahead_report problem parser)
  refine bind report ?_
  unfold Keeps
  rw [stays, taken_withErrors, found_withErrors]
  exact far

theorem reportIf {condition : Bool} {problem : Problem} :
    (Reading.reportIf condition problem).Keeps trail parser := by
  unfold Reading.reportIf
  exact ite (fun _ => report) fun _ => pure

theorem expect {kind : Kind} {problem : Problem}
    (allowed : parser.current.kind = kind → trail.Allows [parser.current] []) :
    (Reading.expect kind problem).Keeps trail parser :=
  (accept allowed).bind (ite (fun _ => pure) fun _ => report.bind pure)

theorem collect {stop : Token → Bool} {item : Reading (List α)} (advances : Advances stop item)
    (each : ∀ parser : Parser, stop parser.current = false → item.Keeps trail parser)
    (parser : Parser) : (Reading.collect stop item).Keeps trail parser := by
  let relation (_ : List α) (problems : List Diagnostic) (first last : Parser) : Prop :=
    ∃ front, front ++ last.ahead = first.ahead ∧ trail.Allows front problems
  have step (parser : Parser) (found : List α) (problems : List Diagnostic) (last : Parser)
      (going : stop parser.current = false) (more : relation found problems (item parser).2 last) :
      relation ((item parser).1 ++ found) (item.found parser ++ problems) parser last := by
    obtain ⟨front, split, rest⟩ := more
    refine ⟨item.taken parser ++ front, ?_, trail.append (each parser going) rest⟩
    rw [List.append_assoc, split, taken_append]
  obtain ⟨front, split, allowed⟩ := @collect_induction α stop item relation advances
    (fun _ _ => ⟨[], rfl, trail.staying _⟩) step parser
  unfold Keeps
  rwa [taken_eq split]

section Level

theorem skipComments : Reading.skipComments.Keeps .level parser :=
  skip (Span.comments_level _)

theorem skipGroup : Reading.skipGroup.Keeps .level parser :=
  skip (Span.group_level 0 _)

/-- A token that is not structural. -/
theorem forward (plain : parser.current.isStructural = false) :
    Reading.advance.Keeps .level parser :=
  advance (List.forall_mem_singleton.2 plain)

end Level

end Keeps

end Reading

namespace Parser

/-- Where the first structural token from here on stands. -/
def atStructure (parser : Parser) : Parser :=
  parser.skip (Span.before Token.isStructural parser.ahead)

theorem atStructure_ahead (parser : Parser) :
    parser.atStructure.ahead = parser.ahead.dropWhile fun token => !token.isStructural :=
  Grammar.drop_before _ _

end Parser

/-- A reading that takes no structural token and ends at one has gone up to the first of them. -/
theorem Reading.Keeps.atStructure {α : Type} {reading : Reading α} {parser : Parser}
    (level : reading.Keeps .level parser)
    (ends : (reading parser).2.current.isStructural = true) :
    ∃ errors, (reading parser).2 =
      parser.atStructure.withErrors parser.settings.maxErrors errors := by
  have before : ∀ token ∈ reading.taken parser, (!token.isStructural) = true := by
    intro token member
    rw [level token member]
    rfl
  have none : (reading parser).2.ahead.dropWhile (fun token => !token.isStructural) =
      (reading parser).2.ahead := by
    cases split : (reading parser).2.ahead with
    | nil => rfl
    | cons token rest =>
      have here : (reading parser).2.current = token := by
        simp [Parser.current, Parser.nth, split]
      rw [here] at ends
      rw [List.dropWhile_cons_of_neg (by simp [ends])]
  have ahead : (reading parser).2.ahead = parser.atStructure.ahead := by
    rw [Parser.atStructure_ahead, ← taken_append reading parser,
      List.dropWhile_append_of_pos before, none]
  have follows := reading.follows parser
  refine ⟨(reading parser).2.errors, ?_⟩
  generalize (reading parser).2 = after at ahead follows
  obtain ⟨settings, tokens, finish, errors⟩ := after
  obtain rfl : settings = parser.settings := follows.settings
  obtain rfl : finish = parser.finish := follows.finish
  obtain rfl : tokens = parser.atStructure.ahead := ahead
  rfl

end CssSyntax

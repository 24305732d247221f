import CssSyntax.Proofs.Braces.Word
import CssSyntax.Proofs.Parser.Trace
import Mathlib.Data.List.Infix

/-! How a reading treats braces. It stays on its level if what it takes is balanced, or if it goes
up to the end of the input and closes only what it opened. It mirrors a word if without problems
the braces that it takes are the word. -/

namespace CssSyntax

open Brace

/-- The ways to recover that may drop an opening brace without its closing one, or the other way
round. -/
inductive Recovery where
  | token
  | declaration
  | block
deriving DecidableEq, Repr

namespace Recovery

def span : Recovery → List Token → Nat
  | token => fun _ => 1
  | declaration => Span.declaration
  | block => Span.block 0

def dropped (recovery : Recovery) (ahead : List Token) : List Token :=
  ahead.take (recovery.span ahead)

open Problem

/-- The problems after which the parser recovers in one of these ways. -/
def table : List (Problem × Recovery) :=
  [ (misplacedAtTop, token)
  , (misplaced "declaration value", token)
  , (misplaced "media block", token)
  , (misplaced "supports block", token)
  , (misplaced "layer block", token)
  , (misplaced "container rule", token)
  , (misplaced "feature value block", token)
  , (noPropertyName, declaration)
  , (missingAfter "':'" "property name", declaration)
  , (missingAfter "string or url()" "@import", declaration)
  , (missingAfter "string or url()" "@namespace", declaration)
  , (missingAfter "string" "@charset", declaration)
  , (noOpening "media query", block)
  , (noOpening "supports condition", block)
  , (noOpening "container query", block)
  , (noOpening "keyframes name", block)
  , (noOpening "font family list", block)
  , (noOpening "feature value block", block)
  , (noOpening "@font-face", block)
  , (noOpening "@counter-style", block)
  , (noOpening "@color-profile", block)
  , (noOpening "@page", block)
  , (noOpening "@viewport", block)
  , (missingAfter "name" "@keyframes", block)
  , (missingAfter "identifier" "@counter-style", block)
  , (missingAfter "dashed-ident or device-cmyk" "@color-profile", block) ]

end Recovery

/-- No token ahead is an end mark, and what is dropped for the problems is balanced. -/
structure Calm (ahead : List Token) (found : List Diagnostic) : Prop where
  noEnd : ∀ token ∈ ahead, token.kind ≠ .eof
  dropped : ∀ diagnostic ∈ found, ∀ token rest, token :: rest <:+ ahead →
    diagnostic = .ofToken diagnostic.problem token →
      ∀ recovery, (diagnostic.problem, recovery) ∈ Recovery.table →
        Balanced (braces (recovery.dropped (token :: rest)))

/-- What is taken is balanced, or it is all there is and closes only what it opens. -/
def OnLevel (taken rest : List Token) : Prop :=
  Balanced (braces taken) ∨ rest = [] ∧ Opens (braces taken)

theorem OnLevel.append {first second rest : List Token} (near : OnLevel first (second ++ rest))
    (far : OnLevel second rest) : OnLevel (first ++ second) rest := by
  unfold OnLevel at *
  rw [braces_append]
  rcases near with balanced | ⟨empty, opens⟩
  · rcases far with further | ⟨ended, opens⟩
    · exact .inl (balanced.append further)
    · exact .inr ⟨ended, balanced.append_opens opens⟩
  · obtain ⟨rfl, rfl⟩ := List.append_eq_nil_iff.1 empty
    exact .inr ⟨rfl, by rwa [braces_nil, List.append_nil]⟩

theorem OnLevel.of_plain {taken rest : List Token}
    (plain : ∀ token ∈ taken, token.brace? = none) : OnLevel taken rest := by
  refine .inl ?_
  rw [braces_eq_nil plain]
  exact Balanced.nil

instance (ahead : List Token) (found : List Diagnostic) : Decidable (Calm ahead found) :=
  decidable_of_iff
    ((∀ token ∈ ahead, token.kind ≠ .eof) ∧
      ∀ diagnostic ∈ found, ∀ tail ∈ ahead.tails, ∀ token ∈ tail.head?,
        diagnostic = .ofToken diagnostic.problem token →
          ∀ entry ∈ Recovery.table, diagnostic.problem = entry.1 →
            Balanced (braces (entry.2.dropped tail))) <| by
    constructor
    · rintro ⟨noEnd, dropped⟩
      refine ⟨noEnd, fun diagnostic member token rest suffix same recovery listed => ?_⟩
      exact dropped diagnostic member (token :: rest) ((List.mem_tails _ _).2 suffix) token rfl same
        (diagnostic.problem, recovery) listed rfl
    · rintro ⟨noEnd, dropped⟩
      refine ⟨noEnd, fun diagnostic member tail isTail token first same entry listed is => ?_⟩
      obtain ⟨rest, rfl⟩ := List.head?_eq_some_iff.1 first
      have suffix := (List.mem_tails _ _).1 isTail
      exact dropped diagnostic member token rest suffix same entry.2 (is ▸ listed)

namespace Calm

variable {α β : Type} {parser : Parser}

theorem first {reading : Reading α} {following : α → Reading β}
    (calm : Calm parser.ahead ((reading >>= following).found parser)) :
    Calm parser.ahead (reading.found parser) where
  noEnd := calm.noEnd
  dropped diagnostic member := by
    rw [Reading.found_bind] at calm
    exact calm.dropped diagnostic (List.mem_append_left _ member)

theorem second {reading : Reading α} {following : α → Reading β}
    (calm : Calm parser.ahead ((reading >>= following).found parser)) :
    Calm (reading parser).2.ahead ((following (reading parser).1).found (reading parser).2) where
  noEnd token member := calm.noEnd token ((reading.follows parser).ahead.subset member)
  dropped diagnostic member token rest suffix := by
    rw [Reading.found_bind] at calm
    exact calm.dropped diagnostic (List.mem_append_right _ member) token rest
      (suffix.trans (reading.follows parser).ahead)

/-- What is dropped right after its problem was found is balanced. -/
theorem balanced_dropped {problem : Problem} {recovery : Recovery}
    (calm : Calm parser.ahead [Diagnostic.ofToken problem parser.current])
    (listed : (problem, recovery) ∈ Recovery.table) :
    Balanced (braces (recovery.dropped parser.ahead)) := by
  cases split : parser.ahead with
  | nil =>
    unfold Recovery.dropped
    rw [List.take_nil]
    exact Balanced.nil
  | cons token rest =>
    have here : parser.current = token := by simp [Parser.current, Parser.nth, split]
    rw [split, here] at calm
    exact calm.dropped _ (List.mem_singleton_self _) token rest List.suffix_rfl rfl recovery listed

end Calm

namespace Reading

variable {α β σ : Type}

def StaysLevel (reading : Reading α) (parser : Parser) : Prop :=
  Calm parser.ahead (reading.found parser) → OnLevel (reading.taken parser) (reading parser).2.ahead

/-- Without problems the braces that the reading takes are the word of what it yields. -/
structure Mirrors (reading : Reading α) (parser : Parser) (word : α → List Brace) : Prop where
  level : reading.StaysLevel parser
  faithful : Calm parser.ahead (reading.found parser) → reading.found parser = [] →
    braces (reading.taken parser) = word (reading parser).1 ∧ Balanced (word (reading parser).1)

/-- A reading that ends with the `}` of the block it starts in, or at the end of the input. -/
def EndsBlock (reading : Reading α) (parser : Parser) : Prop :=
  Calm parser.ahead (reading.found parser) →
    (∃ inner closing, reading.taken parser = inner ++ [closing] ∧ closing.kind = .closeBrace ∧
        Balanced (braces inner)) ∨
      (reading parser).2.ahead = [] ∧ Opens (braces (reading.taken parser))

/-- Without problems the braces before the `}` of the block are the word of what is yielded. -/
structure Closes (reading : Reading α) (parser : Parser) (word : α → List Brace) : Prop where
  level : reading.EndsBlock parser
  faithful : Calm parser.ahead (reading.found parser) → reading.found parser = [] →
    braces (reading.taken parser) = word (reading parser).1 ++ [.closing] ∧
      Balanced (word (reading parser).1)

/-- The word of what holds no blocks. -/
abbrev noBraces (_ : α) : List Brace := []

namespace StaysLevel

variable {reading : Reading α} {following : α → Reading β} {parser : Parser}

theorem bind (first : reading.StaysLevel parser)
    (second : (following (reading parser).1).StaysLevel (reading parser).2) :
    (reading >>= following).StaysLevel parser := by
  intro calm
  have near := first calm.first
  rw [← taken_append (following (reading parser).1)] at near
  rw [taken_bind]
  exact near.append (second calm.second)

theorem withErrors {limit : Option Nat} {errors : List Diagnostic} :
    reading.StaysLevel (parser.withErrors limit errors) ↔ reading.StaysLevel parser := by
  unfold StaysLevel
  rw [taken_withErrors, (reading.uniform parser).ahead_eq]
  rfl

theorem skip {span : List Token → Nat}
    (onLevel : (∀ token ∈ parser.ahead, token.kind ≠ .eof) →
      OnLevel (parser.ahead.take (span parser.ahead)) (parser.ahead.drop (span parser.ahead))) :
    (Reading.skip span).StaysLevel parser := by
  intro calm
  rw [taken_skip]
  exact onLevel calm.noEnd

end StaysLevel

namespace Mirrors

variable {reading : Reading α} {following : α → Reading β} {parser : Parser}

theorem congr {word other : α → List Brace} (mirrors : reading.Mirrors parser word)
    (same : word (reading parser).1 = other (reading parser).1) : reading.Mirrors parser other where
  level := mirrors.level
  faithful := same ▸ mirrors.faithful

theorem bind {first : α → List Brace} {second : β → List Brace}
    (near : reading.Mirrors parser first)
    (far : (following (reading parser).1).Mirrors (reading parser).2 second) :
    (reading >>= following).Mirrors parser
      fun found => first (reading parser).1 ++ second found where
  level := near.level.bind far.level
  faithful calm quiet := by
    have split := (found_bind reading following parser).symm.trans quiet
    obtain ⟨quietFirst, quietSecond⟩ := List.append_eq_nil_iff.1 split
    obtain ⟨sameFirst, balancedFirst⟩ := near.faithful calm.first quietFirst
    obtain ⟨sameSecond, balancedSecond⟩ := far.faithful calm.second quietSecond
    rw [taken_bind, braces_append, sameFirst, sameSecond]
    exact ⟨rfl, balancedFirst.append balancedSecond⟩

variable {word : β → List Brace}

/-- First a reading that takes no braces. -/
theorem before (near : reading.Mirrors parser noBraces)
    (far : (following (reading parser).1).Mirrors (reading parser).2 word) :
    (reading >>= following).Mirrors parser word :=
  near.bind far

theorem map {change : α → β} (mirrors : reading.Mirrors parser fun found => word (change found)) :
    (change <$> reading).Mirrors parser word :=
  ⟨mirrors.level, mirrors.faithful⟩

theorem peek {look : Parser → β} {blind} (empty : word (look parser) = []) :
    (Reading.peek look blind).Mirrors parser word where
  level _ := by
    rw [taken_peek]
    exact .inl Balanced.nil
  faithful _ _ := by
    rw [taken_peek]
    change [] = word (look parser) ∧ Balanced (word (look parser))
    rw [empty]
    exact ⟨rfl, Balanced.nil⟩

theorem pure {value : β} (empty : word value = []) :
    (pure value : Reading β).Mirrors parser word :=
  peek empty

/-- Last a change of what was read. -/
theorem returning {change : α → β}
    (mirrors : reading.Mirrors parser fun found => word (change found)) :
    (reading >>= fun found => Pure.pure (change found)).Mirrors parser word := by
  rw [bind_pure_comp]
  exact mirrors.map

theorem look {look : Parser → α} {blind}
    (far : (following (look parser)).Mirrors parser word) :
    (Reading.peek look blind >>= following).Mirrors parser word :=
  (peek rfl).before far

theorem current {following : Token → Reading β}
    (far : (following parser.current).Mirrors parser word) :
    (Reading.current >>= following).Mirrors parser word :=
  look far

theorem currentIs {kind : Kind} {following : Bool → Reading β}
    (far : (following (parser.currentIs kind)).Mirrors parser word) :
    (Reading.currentIs kind >>= following).Mirrors parser word :=
  look far

theorem nextIs {kind : Kind} {following : Bool → Reading β}
    (far : (following (parser.nextIs kind)).Mirrors parser word) :
    (Reading.nextIs kind >>= following).Mirrors parser word :=
  look far

theorem ite {condition : Prop} [Decidable condition] {yes no : Reading β}
    (first : condition → yes.Mirrors parser word) (second : ¬condition → no.Mirrors parser word) :
    (if condition then yes else no).Mirrors parser word := by
  split
  · next holds => exact first holds
  · next fails => exact second fails

/-- After a problem there is nothing to mirror any more, only a level to stay on. -/
theorem reportAt {problem : Problem} {token : Token} {following : Unit → Reading β}
    (far : Calm parser.ahead [Diagnostic.ofToken problem token] →
      (following ()).StaysLevel parser) :
    (Reading.reportAt problem token >>= following).Mirrors parser word where
  level calm := by
    have same : (Reading.reportAt problem token parser).2 =
        parser.step 0 [Diagnostic.ofToken problem token] := parser.record_eq_step problem token
    have later : (following ()).StaysLevel (Reading.reportAt problem token parser).2 := by
      rw [same]
      exact StaysLevel.withErrors.2 (far calm.first)
    have taken : (Reading.reportAt problem token).taken parser = [] := by
      apply taken_eq
      rw [same]
      rfl
    have onLevel := later calm.second
    rw [taken_bind, taken]
    exact onLevel
  faithful _ quiet := by
    rw [found_bind, found_reportAt] at quiet
    exact absurd quiet (List.cons_ne_nil _ _)

theorem report {problem : Problem} {following : Unit → Reading β}
    (far : Calm parser.ahead [Diagnostic.ofToken problem parser.current] →
      (following ()).StaysLevel parser) :
    (Reading.report problem >>= following).Mirrors parser word := by
  have same : Reading.report problem >>= following =
      Reading.current >>= fun token => Reading.reportAt problem token >>= following :=
    bind_assoc _ _ _
  rw [same]
  exact current (reportAt far)

theorem pure_level {value : α} : (Pure.pure value : Reading α).StaysLevel parser := by
  have mirrors : (Pure.pure value : Reading α).Mirrors parser noBraces := pure rfl
  exact mirrors.level

theorem report_mirrors {problem : Problem} {word : Unit → List Brace} :
    (Reading.report problem).Mirrors parser word := by
  have whole : (Reading.report problem >>= Pure.pure).Mirrors parser word :=
    report fun _ => pure_level
  rwa [bind_pure] at whole

theorem reportIf {condition : Bool} {problem : Problem} {following : Unit → Reading β}
    (far : (following ()).Mirrors parser word) :
    (Reading.reportIf condition problem >>= following).Mirrors parser word := by
  cases condition with
  | true => exact report fun _ => far.level
  | false => exact far

theorem reportIf_mirrors {condition : Bool} {problem : Problem} :
    (Reading.reportIf condition problem).Mirrors parser noBraces := by
  cases condition with
  | true => exact report_mirrors
  | false => exact pure rfl

/-- A recovery of the table, after its problem. -/
theorem recover {problem : Problem} {value : β} (recovery : Recovery)
    (listed : (problem, recovery) ∈ Recovery.table) :
    (Reading.report problem >>= fun _ =>
      Reading.skip recovery.span >>= fun _ => Pure.pure value).Mirrors parser word := by
  refine report fun calm => StaysLevel.bind (StaysLevel.skip fun _ => .inl ?_) pure_level
  exact calm.balanced_dropped listed

theorem expect {kind : Kind} {problem : Problem} {following : Bool → Reading β}
    (yes : parser.current.kind = kind →
      (advance >>= fun _ => following true).Mirrors parser word)
    (no : parser.current.kind ≠ kind →
      (Reading.report problem >>= fun _ => following false).Mirrors parser word) :
    (Reading.expect kind problem >>= following).Mirrors parser word := by
  rw [expect_bind]
  exact current (ite yes no)

end Mirrors

section Spans

/-- A span that counts no braces. -/
def IsPlain (span : List Token → Nat) : Prop :=
  ∀ tokens : List Token, ∀ token ∈ tokens.take (span tokens), token.brace? = none

variable {span : List Token → Nat} {parser : Parser}

theorem Mirrors.of_plain {reading : Reading α}
    (plain : ∀ token ∈ reading.taken parser, token.brace? = none) :
    reading.Mirrors parser noBraces where
  level _ := OnLevel.of_plain plain
  faithful _ _ := ⟨braces_eq_nil plain, Balanced.nil⟩

theorem skip_mirrors (plain : IsPlain span) : (skip span).Mirrors parser noBraces := by
  apply Mirrors.of_plain
  rw [taken_skip]
  exact plain parser.ahead

theorem take_mirrors (plain : IsPlain span) : (take span).Mirrors parser noBraces := by
  apply Mirrors.of_plain
  rw [taken_take]
  exact plain parser.ahead

theorem advance_mirrors (plain : parser.current.brace? = none) :
    advance.Mirrors parser noBraces := by
  apply Mirrors.of_plain
  intro token member
  unfold advance at member
  rw [taken_skip] at member
  cases split : parser.ahead with
  | nil => simp [split] at member
  | cons first rest =>
    have here : parser.current = first := by simp [Parser.current, Parser.nth, split]
    obtain rfl : token = first := by simpa [split] using member
    exact here ▸ plain

theorem IsPlain.before {stop : Token → Bool}
    (stops : ∀ token, stop token = false → token.brace? = none) : IsPlain (Span.before stop) := by
  intro tokens token member
  have front : tokens.takeWhile (fun token => !stop token) <+: tokens := List.takeWhile_prefix _
  unfold Span.before at member
  rw [← List.prefix_iff_eq_take.1 front] at member
  have going := List.all_eq_true.1 List.all_takeWhile token member
  exact stops token (by simpa using going)

end Spans

section Loops

variable {stop : Token → Bool}

/-- A loop mirrors the words of its items, one after the other. -/
theorem collect_mirrors {item : Reading (List α)} {single : α → List Brace}
    (advances : Advances stop item)
    (mirrors : ∀ parser, stop parser.current = false →
      item.Mirrors parser fun found => found.flatMap single) (parser : Parser) :
    (collect stop item).Mirrors parser fun found => found.flatMap single := by
  induction parser using (measure fun parser : Parser => parser.ahead.length).wf.induction with
  | h parser ih =>
    rw [collect_eq advances]
    refine Mirrors.current (Mirrors.ite (fun _ => Mirrors.pure rfl) fun going => ?_)
    have going : stop parser.current = false := by simpa using going
    let last := (collect stop item (item parser).2).1
    have rest : (collect stop item).Mirrors (item parser).2 fun _ => last.flatMap single :=
      (ih (item parser).2 (advances parser going)).congr rfl
    have joined : (do return (item parser).1 ++ (← collect stop item)).Mirrors (item parser).2
        fun _ => last.flatMap single := by
      apply Mirrors.returning
      exact rest
    have whole : (do return (← item) ++ (← collect stop item)).Mirrors parser _ :=
      (mirrors parser going).bind joined
    exact whole.congr List.flatMap_append.symm

theorem flatMap_noBraces (values : List α) : values.flatMap noBraces = [] :=
  List.flatMap_eq_nil_iff.2 fun _ _ => rfl

theorem collect_mirrors_noBraces {item : Reading (List α)} (advances : Advances stop item)
    (mirrors : ∀ parser, stop parser.current = false → item.Mirrors parser noBraces)
    (parser : Parser) : (collect stop item).Mirrors parser noBraces := by
  have whole := collect_mirrors advances
    (fun parser going => (mirrors parser going).congr (flatMap_noBraces _).symm) parser
  exact whole.congr (flatMap_noBraces _)

theorem iterate_mirrors {step : σ → Reading σ} (advances : ∀ state, Advances stop (step state))
    (mirrors : ∀ state parser, stop parser.current = false → (step state).Mirrors parser noBraces)
    (state : σ) (parser : Parser) : (iterate stop step state).Mirrors parser noBraces := by
  induction parser using (measure fun parser : Parser => parser.ahead.length).wf.induction
    generalizing state with
  | h parser ih =>
    rw [iterate_eq advances]
    refine Mirrors.current (Mirrors.ite (fun _ => Mirrors.pure rfl) fun going => ?_)
    have going : stop parser.current = false := by simpa using going
    exact (mirrors state parser going).before (ih _ (advances state parser going) _)

end Loops

namespace Closes

variable {reading : Reading α} {parser : Parser}

theorem map {change : α → β} {word : β → List Brace}
    (closes : reading.Closes parser fun found => word (change found)) :
    (change <$> reading).Closes parser word :=
  ⟨closes.level, closes.faithful⟩

theorem congr {word other : α → List Brace} (closes : reading.Closes parser word)
    (same : word (reading parser).1 = other (reading parser).1) : reading.Closes parser other where
  level := closes.level
  faithful := same ▸ closes.faithful

/-- What stays on its level comes before what closes the block. -/
theorem after {following : α → Reading β} {first : α → List Brace} {second : β → List Brace}
    (near : reading.Mirrors parser first)
    (far : (following (reading parser).1).Closes (reading parser).2 second) :
    (reading >>= following).Closes parser
      fun found => first (reading parser).1 ++ second found where
  level calm := by
    have split := taken_append (following (reading parser).1) (reading parser).2
    rw [taken_bind]
    rcases near.level calm.first with balanced | ⟨empty, opens⟩
    · rcases far.level calm.second with ⟨inner, closing, taken, closes, further⟩ | ⟨ended, rest⟩
      · refine .inl ⟨reading.taken parser ++ inner, closing, ?_, closes, ?_⟩
        · rw [taken, List.append_assoc]
        · rw [braces_append]
          exact balanced.append further
      · refine .inr ⟨ended, ?_⟩
        rw [braces_append]
        exact balanced.append_opens rest
    · rw [empty] at split
      obtain ⟨taken, ended⟩ := List.append_eq_nil_iff.1 split
      rw [taken, List.append_nil]
      exact .inr ⟨ended, opens⟩
  faithful calm quiet := by
    have split := (found_bind reading following parser).symm.trans quiet
    obtain ⟨quietFirst, quietSecond⟩ := List.append_eq_nil_iff.1 split
    obtain ⟨sameFirst, balancedFirst⟩ := near.faithful calm.first quietFirst
    obtain ⟨sameSecond, balancedSecond⟩ := far.faithful calm.second quietSecond
    rw [taken_bind, braces_append, sameFirst, sameSecond, ← List.append_assoc]
    exact ⟨rfl, balancedFirst.append balancedSecond⟩

/-- What closes a block, put after its opening brace, is a whole block. -/
theorem block {word : α → List Brace} (opens : parser.current.kind = .openBrace)
    (closes : reading.Closes (advance parser).2 word) :
    (advance >>= fun _ => reading).Mirrors parser fun found => Brace.block (word found) := by
  have notEnd : parser.current.kind ≠ .eof := by
    rw [opens]
    decide
  have split : braces ((advance >>= fun _ => reading).taken parser) =
      opening :: braces (reading.taken (advance parser).2) := by
    rw [taken_bind, taken_advance notEnd, List.singleton_append, braces_cons_opening opens]
  constructor
  · intro calm
    unfold OnLevel
    rw [split]
    rcases closes.level calm.second with
      ⟨inner, closing, whole, isClosing, balanced⟩ | ⟨ended, rest⟩
    · refine .inl ?_
      rw [whole, braces_append, braces_cons_closing isClosing]
      exact balanced.block
    · exact .inr ⟨ended, rest.opening⟩
  · intro calm quiet
    obtain ⟨same, balanced⟩ := closes.faithful calm.second quiet
    rw [split, same]
    exact ⟨rfl, balanced.block⟩

end Closes

end Reading

end CssSyntax

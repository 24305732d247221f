import CssSyntax.Proofs.Parser.Motion
import CssSyntax.Proofs.Token.Spelling

/-! What a reading yields. Something may be known of each token ahead, such as that it is written
the way of its kind, and nothing is asked of the order in which they stand: what holds of the result
then holds of a parse however broken its source is. -/

namespace CssSyntax

def Parser.Spelled (parser : Parser) : Prop := ∀ token ∈ parser.ahead, token.Spelled

/-- Before the first token of a source the tokens ahead are its own. -/
theorem Parser.ofTokens_spelled (settings : Settings) (source : Bytes) :
    (Parser.ofTokens settings (tokenize source)).Spelled := by
  obtain ⟨front, position, split, _, noEnd⟩ := (tokenize_tiles source).lossless.finish
  rw [split, ofTokens_eq]
  intro token member
  refine tokenize_spelled source token ?_ (noEnd token member)
  rw [split]
  exact List.mem_append_left _ member

namespace Reading

variable {α β σ : Type} {such : Token → Prop}

/-- The result has the property, if all tokens ahead are such. -/
def Gives (such : Token → Prop) (reading : Reading α) (parser : Parser) (holds : α → Prop) : Prop :=
  (∀ token ∈ parser.ahead, such token) → holds (reading parser).1

/-- The result has the property, if the tokens ahead are spelled right. -/
abbrev Yields (reading : Reading α) (parser : Parser) (holds : α → Prop) : Prop :=
  Gives Token.Spelled reading parser holds

theorem such_after (reading : Reading α) {parser : Parser}
    (known : ∀ token ∈ parser.ahead, such token) :
    ∀ token ∈ (reading parser).2.ahead, such token :=
  fun token member => known token ((reading.follows parser).ahead.subset member)

/-- What every element of a list, or of an option, is. -/
def Each (holds : α → Prop) (found : List α) : Prop := ∀ value ∈ found, holds value

def IfAny (holds : α → Prop) (found : Option α) : Prop := ∀ value ∈ found, holds value

theorem Each.nil {holds : α → Prop} : Each holds [] := fun _ member =>
  absurd member List.not_mem_nil

theorem Each.single {holds : α → Prop} {value : α} (first : holds value) : Each holds [value] := by
  intro other member
  obtain rfl := List.mem_singleton.1 member
  exact first

theorem Each.append {holds : α → Prop} {left right : List α} (first : Each holds left)
    (second : Each holds right) : Each holds (left ++ right) := by
  intro value member
  rcases List.mem_append.1 member with before | after
  · exact first value before
  · exact second value after

theorem IfAny.none {holds : α → Prop} : IfAny holds none := fun _ member =>
  absurd member (Option.not_mem_none _)

theorem IfAny.some {holds : α → Prop} {value : α} (is : holds value) :
    IfAny holds (some value) := by
  intro other member
  obtain rfl := Option.mem_some.1 member
  exact is

theorem IfAny.toList {holds : α → Prop} {found : Option α} (each : IfAny holds found) :
    Each holds found.toList := by
  intro value member
  exact each value (Option.mem_toList.1 member)

theorem IfAny.map {holds : α → Prop} {target : β → Prop} {change : α → β} {found : Option α}
    (each : IfAny holds found) (step : ∀ value, holds value → target (change value)) :
    IfAny target (found.map change) := by
  intro value member
  obtain ⟨origin, is, rfl⟩ := Option.map_eq_some_iff.1 member
  exact step origin (each origin is)

namespace Gives

variable {reading : Reading α} {following : α → Reading β} {parser : Parser}
variable {holds : α → Prop} {target : β → Prop}

theorem bind (near : reading.Gives such parser holds)
    (far : ∀ value, holds value → (following value).Gives such (reading parser).2 target) :
    (reading >>= following).Gives such parser target :=
  fun known => far _ (near known) (reading.such_after known)

/-- What a first reading yields may not matter to what comes after it. -/
theorem after (far : (following (reading parser).1).Gives such (reading parser).2 target) :
    (reading >>= following).Gives such parser target :=
  fun known => far (reading.such_after known)

theorem map {change : α → β} (near : reading.Gives such parser holds)
    (step : ∀ value, holds value → target (change value)) :
    (change <$> reading).Gives such parser target :=
  fun known => step _ (near known)

/-- Last a change of what was read. -/
theorem returning {change : α → β} (near : reading.Gives such parser holds)
    (step : ∀ value, holds value → target (change value)) :
    (reading >>= fun found => Pure.pure (change found)).Gives such parser target :=
  fun known => step _ (near known)

theorem mono {weaker : α → Prop} (near : reading.Gives such parser holds)
    (step : ∀ value, holds value → weaker value) : reading.Gives such parser weaker :=
  fun known => step _ (near known)

theorem pure {value : β} (is : target value) :
    (Pure.pure value : Reading β).Gives such parser target :=
  fun _ => is

theorem look {look : Parser → α} {blind}
    (far : (following (look parser)).Gives such parser target) :
    (Reading.peek look blind >>= following).Gives such parser target :=
  far

theorem current {following : Token → Reading β}
    (far : (following parser.current).Gives such parser target) :
    (Reading.current >>= following).Gives such parser target :=
  far

/-- What is known of the current token decides what the reading gives. -/
theorem knowing (notEnd : parser.current.kind ≠ .eof)
    (far : such parser.current → reading.Gives such parser holds) :
    reading.Gives such parser holds := by
  intro known
  obtain ⟨rest, split⟩ := Parser.ahead_eq_cons notEnd
  exact far (known _ (split ▸ List.mem_cons_self)) known

theorem ite {condition : Prop} [Decidable condition] {yes no : Reading β}
    (first : condition → yes.Gives such parser target)
    (second : ¬condition → no.Gives such parser target) :
    (if condition then yes else no).Gives such parser target := by
  split
  · next holds => exact first holds
  · next fails => exact second fails

end Gives

section Loops

variable {stop : Token → Bool} {holds : α → Prop}

/-- What a loop yields is made of what its items yield. -/
theorem collect_gives {item : Reading (List α)}
    (items : ∀ parser, stop parser.current = false → item.Gives such parser (Each holds))
    (parser : Parser) : (collect stop item).Gives such parser (Each holds) := by
  intro known
  change Each holds (collectFrom stop item parser).1
  fun_induction collectFrom stop item parser with
  | case1 parser stopped => exact Each.nil
  | case2 parser going found shorter more ih =>
    have first := items parser (by simpa using going) known
    exact first.append (ih (item.such_after known))
  | case3 parser going found stuck => exact items parser (by simpa using going) known

/-- What the state of a loop is at first, and each step keeps, it is at last. -/
theorem iterate_gives {step : σ → Reading σ} {invariant : σ → Prop}
    (steps : ∀ state parser, stop parser.current = false → invariant state →
      (step state).Gives such parser invariant)
    {state : σ} (start : invariant state) (parser : Parser) :
    (iterate stop step state).Gives such parser invariant := by
  intro known
  change invariant (iterateFrom stop step state parser).1
  fun_induction iterateFrom stop step state parser with
  | case1 state parser stopped => exact start
  | case2 state parser going found shorter ih =>
    have kept := steps state parser (by simpa using going) start known
    exact ih kept ((step state).such_after known)
  | case3 state parser going found stuck =>
    exact steps state parser (by simpa using going) start known

end Loops

end Reading

end CssSyntax

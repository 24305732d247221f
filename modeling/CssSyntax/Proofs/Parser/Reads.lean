import CssSyntax.Proofs.Parser.Trace

/-! Readings of tokens that are written the way the reading wants them. Such a reading takes just
these tokens and finds nothing wrong, whatever stands behind them. -/

namespace CssSyntax

/-- A token spells one word only. -/
theorem Token.isWord_other {token : Token} {word other : Bytes} (spells : token.isWord word = true)
    (apart : Bytes.sameIgnoringCase word other = false) : token.isWord other = false := by
  have same : Bytes.lower token.literal = Bytes.lower word :=
    beq_iff_eq.1 (Bool.and_eq_true_iff.1 spells).2
  unfold isWord Bytes.sameIgnoringCase
  rw [same]
  exact Bool.and_eq_false_iff.2 (.inr apart)

namespace Reading

variable {α β : Type}

/-- Where `tokens` stand before `rest`, the reading takes them, yields `result` and leaves
everything else as it is. -/
def Reads (reading : Reading α) (tokens rest : List Token) (result : α) : Prop :=
  ∀ parser : Parser, parser.ahead = tokens ++ rest →
    reading parser = (result, { parser with ahead := rest })

/-- What holds of the next token, whether there are any before `rest` or not. -/
theorem head_append {holds : Token → Prop} {tokens rest : List Token}
    (front : ∀ next ∈ tokens.head?, holds next) (back : ∀ next ∈ rest.head?, holds next) :
    ∀ next ∈ (tokens ++ rest).head?, holds next := by
  cases tokens with
  | nil => exact back
  | cons token others => exact front

theorem current_of_head {parser : Parser} {token : Token}
    (first : parser.ahead.head? = some token) : parser.current = token := by
  unfold Parser.current Parser.nth
  rw [← List.head?_eq_getElem?, first]
  rfl

theorem next_kind_iff {parser : Parser} {kind : Kind} (other : kind ≠ .eof) :
    parser.next.kind = kind ↔ ∃ next ∈ parser.ahead.tail.head?, next.kind = kind := by
  unfold Parser.next Parser.nth
  rw [List.head?_tail]
  cases parser.ahead[1]? with
  | none => simpa [Token.endOfInput] using other.symm
  | some next => simp

namespace Reads

variable {reading : Reading α} {next : α → Reading β} {tokens more rest : List Token}
variable {token : Token} {result : α} {final : β}

theorem pure : (Pure.pure result : Reading α).Reads [] rest result := by
  intro parser ahead
  obtain ⟨settings, left, finish, errors⟩ := parser
  obtain rfl : left = rest := ahead
  rfl

theorem bind (near : reading.Reads tokens (more ++ rest) result)
    (far : (next result).Reads more rest final) :
    (reading >>= next).Reads (tokens ++ more) rest final := by
  intro parser ahead
  rw [bind_apply, near parser (by rw [ahead, List.append_assoc])]
  exact far { parser with ahead := more ++ rest } rfl

/-- Last a reading that takes nothing. -/
theorem last (near : reading.Reads tokens rest result) (far : (next result).Reads [] rest final) :
    (reading >>= next).Reads tokens rest final := by
  have whole := bind near far
  rwa [List.append_nil] at whole

theorem map {change : α → β} (near : reading.Reads tokens rest result) :
    (change <$> reading).Reads tokens rest (change result) := by
  intro parser ahead
  change (change (reading parser).1, (reading parser).2) = _
  rw [near parser ahead]

/-- Last a change of what was read. -/
theorem returning {change : α → β} (near : reading.Reads tokens rest result) :
    (reading >>= fun found => Pure.pure (change found)).Reads tokens rest (change result) :=
  map near

theorem look {seen : Parser → α} {blind} (shows : ∀ parser : Parser,
      parser.ahead = tokens ++ rest → seen parser = result)
    (far : (next result).Reads tokens rest final) :
    (Reading.peek seen blind >>= next).Reads tokens rest final := by
  intro parser ahead
  change next (seen parser) parser = _
  rw [shows parser ahead]
  exact far parser ahead

theorem look_true {seen : Parser → Bool} {blind} {next : Bool → Reading β}
    (shows : ∀ parser : Parser, parser.ahead = tokens ++ rest → seen parser = true)
    (far : (next true).Reads tokens rest final) :
    (Reading.peek seen blind >>= next).Reads tokens rest final :=
  look shows far

theorem look_false {seen : Parser → Bool} {blind} {next : Bool → Reading β}
    (shows : ∀ parser : Parser, parser.ahead = tokens ++ rest → ¬seen parser = true)
    (far : (next false).Reads tokens rest final) :
    (Reading.peek seen blind >>= next).Reads tokens rest final :=
  look (fun parser ahead => Bool.eq_false_iff.2 (shows parser ahead)) far

theorem current {next : Token → Reading β} (first : (tokens ++ rest).head? = some token)
    (far : (next token).Reads tokens rest final) :
    (Reading.current >>= next).Reads tokens rest final :=
  look (fun _ ahead => current_of_head (ahead ▸ first)) far

theorem currentIs {next : Bool → Reading β} {kind : Kind}
    (first : (tokens ++ rest).head? = some token) (is : token.kind = kind)
    (far : (next true).Reads tokens rest final) :
    (Reading.currentIs kind >>= next).Reads tokens rest final := by
  refine look_true (fun parser ahead => ?_) far
  rw [currentIs_iff, current_of_head (ahead ▸ first)]
  exact is

theorem currentIsOther {next : Bool → Reading β} {kind : Kind}
    (first : (tokens ++ rest).head? = some token) (other : token.kind ≠ kind)
    (far : (next false).Reads tokens rest final) :
    (Reading.currentIs kind >>= next).Reads tokens rest final := by
  refine look_false (fun parser ahead => ?_) far
  rw [currentIs_iff, current_of_head (ahead ▸ first)]
  exact other

theorem nextIs {next : Bool → Reading β} {kind : Kind}
    (second : (tokens ++ rest).tail.head? = some token) (is : token.kind = kind)
    (other : kind ≠ .eof) (far : (next true).Reads tokens rest final) :
    (Reading.nextIs kind >>= next).Reads tokens rest final := by
  refine look_true (fun parser ahead => ?_) far
  rw [nextIs_iff, next_kind_iff other]
  exact ⟨token, ahead ▸ second, is⟩

theorem nextIsOther {next : Bool → Reading β} {kind : Kind}
    (apart : ∀ next ∈ (tokens ++ rest).tail.head?, next.kind ≠ kind)
    (other : kind ≠ .eof) (far : (next false).Reads tokens rest final) :
    (Reading.nextIs kind >>= next).Reads tokens rest final := by
  refine look_false (fun parser ahead => ?_) far
  rw [nextIs_iff, next_kind_iff other]
  rintro ⟨found, second, is⟩
  exact apart found (ahead ▸ second) is

theorem advance : Reading.advance.Reads [token] rest () := by
  intro parser ahead
  change ((), { parser with ahead := parser.ahead.drop 1 }) = _
  rw [ahead]
  rfl

theorem advancing {next : Unit → Reading β} (far : (next ()).Reads tokens rest final) :
    (Reading.advance >>= next).Reads (token :: tokens) rest final :=
  bind advance far

theorem expect {next : Bool → Reading β} {kind : Kind} {problem : Problem}
    (is : token.kind = kind) (far : (next true).Reads tokens rest final) :
    (Reading.expect kind problem >>= next).Reads (token :: tokens) rest final := by
  rw [expect_bind]
  refine current rfl ?_
  rw [if_pos is]
  exact advancing far

theorem accept {next : Bool → Reading β} {kind : Kind} (is : token.kind = kind)
    (far : (next true).Reads tokens rest final) :
    (Reading.accept kind >>= next).Reads (token :: tokens) rest final := by
  have near : (Reading.accept kind).Reads [token] (tokens ++ rest) true :=
    currentIs rfl is (advancing pure)
  exact bind near far

theorem acceptOther {next : Bool → Reading β} {kind : Kind}
    (first : (tokens ++ rest).head? = some token) (other : token.kind ≠ kind)
    (far : (next false).Reads tokens rest final) :
    (Reading.accept kind >>= next).Reads tokens rest final := by
  intro parser ahead
  have here : parser.current = token := current_of_head (ahead ▸ first)
  rw [bind_apply, accept_of_other (here ▸ other)]
  exact far parser ahead

theorem acceptWord {next : Bool → Reading β} {word : Bytes} (spells : token.isWord word = true)
    (far : (next true).Reads tokens rest final) :
    (Reading.acceptWord word >>= next).Reads (token :: tokens) rest final := by
  have near : (Reading.acceptWord word).Reads [token] (tokens ++ rest) true := by
    refine current rfl ?_
    rw [if_pos spells]
    exact advancing pure
  exact bind near far

theorem acceptWordOther {next : Bool → Reading β} {word : Bytes}
    (first : (tokens ++ rest).head? = some token) (other : token.isWord word = false)
    (far : (next false).Reads tokens rest final) :
    (Reading.acceptWord word >>= next).Reads tokens rest final := by
  have near : (Reading.acceptWord word).Reads [] (tokens ++ rest) false := by
    refine current first ?_
    rw [other]
    exact pure
  exact bind near far

theorem noComments {next : Unit → Reading β} (first : (tokens ++ rest).head? = some token)
    (other : token.kind ≠ .comment) (far : (next ()).Reads tokens rest final) :
    (Reading.skipComments >>= next).Reads tokens rest final := by
  have none : Span.comments (tokens ++ rest) = 0 := by
    obtain ⟨others, split⟩ := List.head?_eq_some_iff.1 first
    unfold Span.comments Span.before
    rw [split, List.takeWhile_cons_of_neg (by simpa using other)]
    rfl
  intro parser ahead
  have stays : Reading.skipComments parser = ((), parser) := by
    change ((), parser.skip (Span.comments parser.ahead)) = _
    rw [ahead, none]
    rfl
  rw [bind_apply, stays]
  exact far parser ahead

/-- A stretch that ends with its tokens. -/
theorem take {span : List Token → Nat} (ends : span (tokens ++ rest) = tokens.length) :
    (Reading.take span).Reads tokens rest tokens := by
  intro parser ahead
  change (parser.ahead.take _, { parser with ahead := parser.ahead.drop _ }) = _
  rw [ahead, ends, List.take_left, List.drop_left]

section Loops

variable {stop : Token → Bool} {item : Reading (List α)} {found others : List α}

theorem collect_nil (stopped : stop token = true) :
    (collect stop item).Reads [] (token :: rest) [] := by
  intro parser ahead
  have here : parser.current = token := current_of_head (ahead ▸ rfl)
  rw [collect_stopped (here ▸ stopped)]
  exact pure parser ahead

theorem collect_cons (advances : Advances stop item) (going : stop token = false)
    (near : item.Reads (token :: tokens) (more ++ rest) found)
    (far : (collect stop item).Reads more rest others) :
    (collect stop item).Reads (token :: tokens ++ more) rest (found ++ others) := by
  intro parser ahead
  have here : parser.current = token := current_of_head (ahead ▸ rfl)
  have first := near parser (by rw [ahead, List.append_assoc])
  rw [collect_step advances (here ▸ going), first,
    far { parser with ahead := more ++ rest } rfl]

variable {σ : Type} {step : σ → Reading σ} {state found : σ} {final : σ}

theorem iterate_nil (stopped : stop token = true) :
    (iterate stop step state).Reads [] (token :: rest) state := by
  intro parser ahead
  have here : parser.current = token := current_of_head (ahead ▸ rfl)
  rw [iterate_stopped (here ▸ stopped)]
  exact pure parser ahead

theorem iterate_cons (advances : ∀ state, Advances stop (step state)) (going : stop token = false)
    (near : (step state).Reads (token :: tokens) (more ++ rest) found)
    (far : (iterate stop step found).Reads more rest final) :
    (iterate stop step state).Reads (token :: tokens ++ more) rest final := by
  intro parser ahead
  have here : parser.current = token := current_of_head (ahead ▸ rfl)
  have first := near parser (by rw [ahead, List.append_assoc])
  rw [iterate_step advances (here ▸ going), first, far { parser with ahead := more ++ rest } rfl]

end Loops

end Reads

end Reading

end CssSyntax

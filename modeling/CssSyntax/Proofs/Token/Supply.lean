import CssSyntax.Proofs.Token.Tiling

/-! A tokenizer that is asked for tokens in two ways in any order. Both take the tokens of the
source in turn off one supply, and the end of the input stays in it. Only `next?` keeps in mind that
it handed the end out, and hands out nothing from then on. -/

namespace CssSyntax

namespace Tokenizer

/-- The tokens still to come. The end of the input is the last of them and is never used up. -/
def supply (tokenizer : Tokenizer) : List Token :=
  tokensFrom tokenizer.position tokenizer.ahead

/-- `token` comes first in a supply and leaves `later`. -/
inductive Takes : List Token → Token → List Token → Prop where
  | next {token : Token} {later : List Token} (real : token.kind ≠ .eof) (more : later ≠ []) :
      Takes (token :: later) token later
  | last {token : Token} (ends : token.kind = .eof) : Takes [token] token [token]

section Takes

variable {supply later : List Token} {token : Token}

theorem Takes.first (takes : Takes supply token later) :
    supply[min 0 (supply.length - 1)]? = some token := by
  cases takes <;> simp

/-- Turns behind the first are turns of what is left, also where the end is all there is. -/
theorem Takes.further (takes : Takes supply token later) (count : Nat) :
    supply[min (count + 1) (supply.length - 1)]? = later[min count (later.length - 1)]? := by
  cases takes with
  | next real more =>
    have some := List.length_pos_iff.2 more
    have turn : min (count + 1) ((token :: later).length - 1) =
        min count (later.length - 1) + 1 := by
      rw [List.length_cons]
      omega
    rw [turn, List.getElem?_cons_succ]
  | last ends => simp

/-- The end of the input is the only token that nothing comes after. -/
theorem Takes.eq_cons (takes : Takes supply token later) :
    supply = token :: if token.kind = .eof then [] else later := by
  cases takes with
  | next real more => rw [if_neg real]
  | last ends => rw [if_pos ends]

end Takes

theorem consume_takes (tokenizer : Tokenizer) :
    Takes tokenizer.supply tokenizer.consume.1 tokenizer.consume.2.supply := by
  unfold supply consume
  cases found : Cut.ofBytes? tokenizer.ahead with
  | none =>
    rw [tokensFrom_none found, tokensFrom_nil]
    exact .last rfl
  | some cut =>
    rw [tokensFrom_cut found]
    exact .next (Cut.kind_ne_eof found) (tokensFrom_ne_nil _ _)

theorem finished_consume (tokenizer : Tokenizer) :
    tokenizer.consume.2.finished = tokenizer.finished := by
  unfold consume
  cases Cut.ofBytes? tokenizer.ahead <;> rfl

/-- A pull with the answer to it. -/
structure Exchange where
  pull : Pull
  answer : Option Token

/-- True if `next?` hands out the end of the input. -/
def Exchange.ends (exchange : Exchange) : Bool :=
  match exchange.pull with
  | .next => exchange.answer.any fun token => token.kind == .eof
  | .consume => false

/-- What one pull does. `next?` is refused once the tokenizer is finished. Else a token is taken off
the supply, and the tokenizer is finished if that is an end handed out by `next?`. -/
inductive Answers : Tokenizer → Exchange → Tokenizer → Prop where
  | refuse {tokenizer : Tokenizer} (finished : tokenizer.finished = true) :
      Answers tokenizer ⟨.next, none⟩ tokenizer
  | hand {tokenizer after : Tokenizer} {pull : Pull} {token : Token}
      (goesOn : pull = .next → tokenizer.finished = false)
      (takes : Takes tokenizer.supply token after.supply)
      (mark : after.finished = (tokenizer.finished || Exchange.ends ⟨pull, some token⟩)) :
      Answers tokenizer ⟨pull, some token⟩ after

section Answers

variable {tokenizer after : Tokenizer} {exchange : Exchange}

theorem Answers.finished_eq (step : Answers tokenizer exchange after) :
    after.finished = (tokenizer.finished || exchange.ends) := by
  cases step with
  | refuse finished => exact (Bool.or_false _).symm
  | hand goesOn takes mark => exact mark

/-- The end is handed out by `next?` only where it was not before. -/
theorem Answers.goesOn (step : Answers tokenizer exchange after) (ends : exchange.ends = true) :
    tokenizer.finished = false := by
  cases step with
  | refuse finished => exact absurd ends Bool.false_ne_true
  | @hand _ pull _ goesOn takes mark =>
    cases pull with
    | next => exact goesOn rfl
    | consume => exact absurd ends Bool.false_ne_true

end Answers

theorem pull_answers (tokenizer : Tokenizer) (pull : Pull) :
    Answers tokenizer ⟨pull, (tokenizer.pull pull).1⟩ (tokenizer.pull pull).2 := by
  have takes := tokenizer.consume_takes
  have kept := tokenizer.finished_consume
  cases pull with
  | next =>
    unfold Tokenizer.pull next?
    dsimp only
    cases finished : tokenizer.finished with
    | true => exact .refuse finished
    | false => exact .hand (fun _ => finished) takes (by rw [finished]; rfl)
  | consume => exact .hand (by simp) takes (kept.trans (Bool.or_false _).symm)

/-- The pulls with their answers. -/
def history (tokenizer : Tokenizer) (pulls : List Pull) : List Exchange :=
  List.zipWith Exchange.mk pulls (tokenizer.run pulls)

/-- Exchanges that follow one another. -/
inductive Talks : Tokenizer → List Exchange → Prop where
  | nil {tokenizer : Tokenizer} : Talks tokenizer []
  | cons {tokenizer after : Tokenizer} {exchange : Exchange} {exchanges : List Exchange}
      (first : Answers tokenizer exchange after) (rest : Talks after exchanges) :
      Talks tokenizer (exchange :: exchanges)

theorem history_talks (tokenizer : Tokenizer) (pulls : List Pull) :
    Talks tokenizer (tokenizer.history pulls) := by
  induction pulls generalizing tokenizer with
  | nil => exact .nil
  | cons pull pulls ih => exact .cons (tokenizer.pull_answers pull) (ih _)

theorem length_run (tokenizer : Tokenizer) (pulls : List Pull) :
    (tokenizer.run pulls).length = pulls.length := by
  induction pulls generalizing tokenizer with
  | nil => rfl
  | cons pull pulls ih => exact congrArg (· + 1) (ih _)

namespace Talks

variable {tokenizer : Tokenizer} {exchanges : List Exchange}

/-- Tokens are handed out in the order of the supply, and the last one again from then on. -/
theorem handed (talks : Talks tokenizer exchanges) :
    ∀ count < (exchanges.filterMap Exchange.answer).length,
      (exchanges.filterMap Exchange.answer)[count]? =
        tokenizer.supply[min count (tokenizer.supply.length - 1)]? := by
  induction talks with
  | nil => exact fun count bound => absurd bound (Nat.not_lt_zero count)
  | cons step talks ih =>
    cases step with
    | refuse finished => exact ih
    | hand goesOn takes mark =>
      intro count bound
      cases count with
      | zero => exact takes.first.symm
      | succ count =>
        rw [takes.further]
        exact ih count (Nat.lt_of_succ_lt_succ bound)

/-- The end is handed out by `next?` once more at most, and not at all if it was before. -/
theorem ends_once (talks : Talks tokenizer exchanges) :
    exchanges.countP Exchange.ends + tokenizer.finished.toNat ≤ 1 := by
  -- An end that is handed out sets the mark, so that a step moves one from the count to the mark.
  induction talks with
  | nil =>
    rw [List.countP_nil, Nat.zero_add]
    exact Bool.toNat_le _
  | @cons tokenizer after exchange exchanges step talks ih =>
    rw [step.finished_eq] at ih
    rw [List.countP_cons]
    cases ends : exchange.ends with
    | false => simpa [ends] using ih
    | true => simpa [ends, step.goesOn ends] using ih

/-- A pull gets nothing exactly if it is by `next?` and `next?` handed out the end before. -/
theorem refused (talks : Talks tokenizer exchanges) :
    ∀ before exchange behind, exchanges = before ++ exchange :: behind →
      (exchange.answer = none ↔ exchange.pull = .next ∧
        (tokenizer.finished = true ∨ ∃ earlier ∈ before, earlier.ends = true)) := by
  induction talks with
  | nil => exact fun before exchange behind split => absurd split.symm (by simp)
  | @cons tokenizer after first exchanges step talks ih =>
    intro before exchange behind split
    cases before with
    | nil =>
      obtain ⟨rfl, rfl⟩ := List.cons.inj split
      cases step with
      | refuse finished => simp [finished]
      | hand goesOn takes mark => simpa using goesOn
    | cons earlier before =>
      obtain ⟨rfl, later⟩ := List.cons.inj split
      rw [ih before exchange behind later, List.exists_mem_cons_iff, step.finished_eq,
        Bool.or_eq_true, or_assoc]

end Talks

/-- What `next?` answers is the first of what is left for it. -/
theorem Answers.rest_eq {tokenizer after : Tokenizer} {answer : Option Token}
    (step : Answers tokenizer ⟨.next, answer⟩ after) :
    tokenizer.rest.head? = answer ∧ tokenizer.rest.tail = after.rest := by
  cases step with
  | refuse finished => simp [rest, finished]
  | @hand _ _ token goesOn takes mark =>
    have whole : tokenizer.rest = tokenizer.supply := by
      rw [rest, goesOn rfl]
      rfl
    have left : after.rest = if token.kind = .eof then [] else after.supply := by
      rw [rest, mark, goesOn rfl]
      simp [Exchange.ends, supply]
    rw [whole, left, takes.eq_cons]
    exact ⟨rfl, rfl⟩

/-- Where `next?` alone is asked, it hands out what is left and then nothing. -/
theorem run_next (tokenizer : Tokenizer) (count : Nat) :
    tokenizer.run (List.replicate count .next) = (tokenizer.rest.map some).takeD count none := by
  induction count generalizing tokenizer with
  | zero => rfl
  | succ count ih =>
    obtain ⟨first, later⟩ := (tokenizer.pull_answers .next).rest_eq
    change (tokenizer.pull .next).1 ::
      (tokenizer.pull .next).2.run (List.replicate count .next) = _
    rw [ih, ← first, ← later, List.map_tail, List.takeD_succ, List.head?_map]
    cases tokenizer.rest <;> rfl

/-- The exchanges of a tokenizer against the tokens of its source. -/
structure InTurn (source : Bytes) (exchanges : List Exchange) : Prop where
  /-- Tokens are handed out in the order of the source, none left out and none twice but for the
  last, the end of the input, which is handed out from then on. -/
  handed : ∀ count < (exchanges.filterMap Exchange.answer).length,
    (exchanges.filterMap Exchange.answer)[count]? =
      (tokenize source)[min count ((tokenize source).length - 1)]?
  /-- The end of the input is handed out by `next?` once at most. -/
  ends_once : exchanges.countP Exchange.ends ≤ 1
  /-- From then on `next?` hands out nothing. Each other pull gets a token. -/
  refused : ∀ before exchange behind, exchanges = before ++ exchange :: behind →
    (exchange.answer = none ↔
      exchange.pull = .next ∧ ∃ earlier ∈ before, earlier.ends = true)

/-- By `next?` alone the tokens of the source are handed out once, and then nothing. If tokens are
asked for by `next?` and by `consume` in any order, each pull is answered, the tokens are those of
the source in turn, and `next?` hands out the end once at most and nothing behind it. -/
theorem run_inTurn (source : Bytes) :
    (∀ count, (ofBytes source).run (List.replicate count .next) =
      ((tokenize source).map some).takeD count none) ∧
    ∀ pulls : List Pull, ((ofBytes source).run pulls).length = pulls.length ∧
      InTurn source ((ofBytes source).history pulls) := by
  refine ⟨run_next _, fun pulls => ⟨length_run _ pulls, ?_⟩⟩
  have talks := (ofBytes source).history_talks pulls
  refine ⟨talks.handed, talks.ends_once, fun before exchange behind split => ?_⟩
  rw [talks.refused before exchange behind split]
  simp [ofBytes]

/-- An end that `consume` was given leaves that of `next?` still to come. -/
example :
    (ofBytes (utf8 "a ")).run [.consume, .consume, .next, .next, .consume] =
      [some ⟨.ident, utf8 "a", .start⟩, some (.endOfInput ⟨1, 3, 2⟩),
        some (.endOfInput ⟨1, 3, 2⟩), none, some (.endOfInput ⟨1, 3, 2⟩)] := by
  rfl

end Tokenizer

end CssSyntax

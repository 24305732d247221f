import CssSyntax.Grammar.Rule
import CssSyntax.Proofs.Driver.Step

/-! Loops over the tokens ahead: recoveries, and runs of tokens that are kept. A loop looks at the
current token and the next, and what it counts decides with them how it goes on. The counts that go
down are checked. -/

namespace CssSyntax

/-- What a loop does at a token. -/
inductive Turn
  /-- The token is left. -/
  | halt
  /-- The token is the last one taken. -/
  | last
  /-- The token is taken, and the loop goes on with a new count. -/
  | next (count : Nat)

/-- The loops. What is counted is for most of them how many brackets are open. -/
inductive Sweep
  /-- Up to a token of the set, which the end of the input is in. -/
  | before (stop : Token → Bool) (ends : ∀ position, stop (Token.endOfInput position) = true)
  | block
  | declaration
  | group
  | atRule
  /-- Up to the `)` of the group around it. -/
  | inside (stop : Token → Bool)
  /-- From a `(` to before the `)` that closes it. -/
  | argument
  /-- The names and numbers that touch one another. Here the count is where the last one stops. -/
  | glued
  /-- The points and names of inner layers. Here the count is one between a point and its name. -/
  | layers

namespace Sweep

/-- From the opening parenthesis on, or with it already counted. -/
def argumentSpan (opened : Nat) : List Token → Nat
  | [] => 0
  | token :: rest =>
    if token.isStructural then 0
    else
      match token.kind with
      | .openParen => argumentSpan (opened + 1) rest + 1
      | .closeParen => if opened ≤ 1 then 0 else argumentSpan (opened - 1) rest + 1
      | _ => argumentSpan opened rest + 1

/-- The inner layers, or the name of one with those in it. -/
def layersSpan (count : Nat) (tokens : List Token) : Nat :=
  match count, tokens with
  | 0, tokens => Grammar.innerLayers tokens
  | _ + 1, [] => 0
  | _ + 1, name :: rest => if name.kind = .ident then Grammar.innerLayers rest + 1 else 0

/-- How many tokens the loop takes. -/
def span (count : Nat) : Sweep → List Token → Nat
  | before stop _ => Span.before stop
  | block => Span.block count
  | declaration => Span.declaration
  | group => Span.group count
  | atRule => Span.atRule count
  | inside stop => Span.inside stop count
  | argument => argumentSpan count
  | glued => Span.glued count
  | layers => layersSpan count

/-- What a loop does with one bracket less. -/
def down? (count : Nat) (change : Nat → Turn) : Option Turn := change <$> minus? count 1

/-- What the loop does at a token that another comes after. -/
def turn? (count : Nat) (token follower : Token) : Sweep → Option Turn
  | before stop _ => some (if stop token then .halt else .next count)
  | block =>
    match token.kind with
    | .eof => some .halt
    | .openBrace => some (.next (count + 1))
    | .closeBrace => if count ≤ 1 then some .last else down? count .next
    | _ => some (.next count)
  | declaration =>
    match token.kind with
    | .eof => some .halt
    | .closeBrace => some .halt
    | .semicolon => some .last
    | _ => some (.next count)
  | group =>
    if token.isStructural then some .halt
    else
      match token.kind with
      | .openParen => some (.next (count + 1))
      | .closeParen => if count = 0 then some .last else down? count .next
      | _ => some (.next count)
  | atRule =>
    match token.kind with
    | .eof => some .halt
    | .semicolon => some (if count = 0 then .last else .next count)
    | .openBrace => some (.next (count + 1))
    | .closeBrace =>
      if count = 0 then some .halt
      else down? count fun left => if left = 0 then .last else .next left
    | _ => some (.next count)
  | inside stop =>
    if token.isStructural then some .halt
    else if count = 0 && stop token then some .halt
    else
      match token.kind with
      | .openParen => some (.next (count + 1))
      | .closeParen => if count = 0 then some .halt else down? count .next
      | _ => some (.next count)
  | argument =>
    if token.isStructural then some .halt
    else
      match token.kind with
      | .openParen => some (.next (count + 1))
      -- no test comes before this one: a `)` that none opened would go below zero
      | .closeParen => down? count fun left => if left = 0 then .halt else .next left
      | _ => some (.next count)
  | glued =>
    some (if token.start.offset = count ∧ (token.kind = .ident ∨ token.kind = .number) then
      .next token.stop else .halt)
  | layers =>
    match count with
    | 0 =>
      some (if token.kind = .dot ∧ follower.kind = .ident ∧ token.stop = follower.start.offset then
        .next 1 else .halt)
    | _ + 1 => some (if token.kind = .ident then .next 0 else .halt)

/-- The counts with which no loop goes below zero, whatever tokens are ahead. -/
def Guards (count : Nat) (sweep : Sweep) : Prop := sweep = argument → 0 < count

/-- The number of tokens that a turn takes, given how many the loop takes with a new count. -/
def taken (more : Nat → Nat) : Turn → Nat
  | .halt => 0
  | .last => 1
  | .next count => more count + 1

/-- The loop makes a turn at the token without going below zero, the turn takes what the loop is
said to take, and the count it leaves is right again. -/
def Turns (sweep : Sweep) (count : Nat) (token : Token) (rest : List Token)
    (finish : Position) : Prop :=
  ∃ turn, sweep.turn? count token (rest.head?.getD (Token.endOfInput finish)) = some turn ∧
    sweep.span count (token :: rest) = taken (fun more => sweep.span more rest) turn ∧
    ∀ more, turn = .next more → sweep.Guards more

theorem down?_eq {count : Nat} (some : count ≠ 0) (change : Nat → Turn) :
    down? count change = Option.some (change (count - 1)) := by
  rw [down?, minus?, if_pos (Nat.one_le_iff_ne_zero.2 some)]
  rfl

theorem argumentSpan_succ (opened : Nat) (tokens : List Token) :
    argumentSpan (opened + 1) tokens = Span.inside (fun _ => false) opened tokens := by
  induction tokens generalizing opened with
  | nil => rfl
  | cons token rest ih =>
    rw [argumentSpan, Span.inside, ih, ih, Bool.and_false, if_neg Bool.false_ne_true]
    cases opened with
    | zero => rfl
    | succ opened =>
      have many : ¬opened + 1 + 1 ≤ 1 := by omega
      rw [if_neg many, if_neg (Nat.succ_ne_zero opened), Nat.add_sub_cancel, ih]
      rfl

section Turns

variable {sweep : Sweep} {count : Nat}

/-- At the end of the input all loops end. -/
theorem turn?_endOfInput (sweep : Sweep) (count : Nat) (position : Position) (follower : Token) :
    sweep.turn? count (Token.endOfInput position) follower = some .halt := by
  cases sweep with
  | before stop ends => simp [turn?, ends]
  | layers => cases count <;> rfl
  | glued => simp [turn?, Token.endOfInput]
  | _ => rfl

theorem span_nil (sweep : Sweep) (count : Nat) : sweep.span count [] = 0 := by
  cases sweep with
  | layers => cases count <;> rfl
  | _ => rfl

variable {token : Token} {rest : List Token} {finish : Position}

theorem Turns.tested (tested : sweep ≠ .argument)
    (turns : ∃ turn,
      sweep.turn? count token (rest.head?.getD (Token.endOfInput finish)) = some turn ∧
        sweep.span count (token :: rest) = taken (fun more => sweep.span more rest) turn) :
    sweep.Turns count token rest finish := by
  obtain ⟨turn, is, takes⟩ := turns
  exact ⟨turn, is, takes, fun _ _ argued => absurd argued tested⟩

theorem before_turns (stop : Token → Bool) (ends) :
    (before stop ends).Turns count token rest finish := by
  refine .tested nofun ⟨_, rfl, ?_⟩
  simp only [span, Span.before, List.takeWhile_cons]
  cases stop token <;> rfl

theorem block_turns : block.Turns count token rest finish := by
  refine .tested nofun ?_
  rw [turn?, span, Span.block]
  cases token.kind with
  | closeBrace =>
    by_cases few : count ≤ 1
    · exact ⟨.last, if_pos few, if_pos few⟩
    · exact ⟨.next _, (if_neg few).trans (down?_eq (by omega) _), if_neg few⟩
  | _ => exact ⟨_, rfl, rfl⟩

theorem declaration_turns : declaration.Turns count token rest finish := by
  refine .tested nofun ?_
  rw [turn?, span, Span.declaration]
  cases token.kind <;> exact ⟨_, rfl, rfl⟩

theorem group_turns : group.Turns count token rest finish := by
  refine .tested nofun ?_
  rw [turn?, span, Span.group]
  by_cases ended : token.isStructural = true
  · exact ⟨.halt, if_pos ended, if_pos ended⟩
  rw [if_neg ended, if_neg ended]
  cases token.kind with
  | closeParen =>
    by_cases none : count = 0
    · exact ⟨.last, if_pos none, if_pos none⟩
    · exact ⟨.next _, (if_neg none).trans (down?_eq none _), if_neg none⟩
  | _ => exact ⟨_, rfl, rfl⟩

theorem atRule_turns : atRule.Turns count token rest finish := by
  refine .tested nofun ?_
  rw [turn?, span, Span.atRule]
  cases token.kind with
  | semicolon =>
    by_cases none : count = 0
    · exact ⟨.last, congrArg some (if_pos none), if_pos none⟩
    · exact ⟨.next _, congrArg some (if_neg none), if_neg none⟩
  | closeBrace =>
    by_cases none : count = 0
    · exact ⟨.halt, if_pos none, if_pos none⟩
    refine ⟨_, (if_neg none).trans (down?_eq none _), (if_neg none).trans ?_⟩
    by_cases one : count = 1
    · rw [if_pos one, if_pos (by omega)]
      rfl
    · rw [if_neg one, if_neg (by omega)]
      rfl
  | _ => exact ⟨_, rfl, rfl⟩

theorem inside_turns (stop : Token → Bool) : (inside stop).Turns count token rest finish := by
  refine .tested nofun ?_
  rw [turn?, span, Span.inside]
  by_cases ended : token.isStructural = true
  · exact ⟨.halt, if_pos ended, if_pos ended⟩
  rw [if_neg ended, if_neg ended]
  by_cases stopped : (decide (count = 0) && stop token) = true
  · exact ⟨.halt, if_pos stopped, if_pos stopped⟩
  rw [if_neg stopped, if_neg stopped]
  cases token.kind with
  | closeParen =>
    by_cases none : count = 0
    · exact ⟨.halt, if_pos none, if_pos none⟩
    · exact ⟨.next _, (if_neg none).trans (down?_eq none _), if_neg none⟩
  | _ => exact ⟨_, rfl, rfl⟩

/-- The loop without a test halts where no parenthesis would be left. -/
theorem argument_turns (counted : 0 < count) : argument.Turns count token rest finish := by
  have kept {more : Nat} (left : 0 < more) :
      ∀ other, Turn.next more = .next other → argument.Guards other :=
    fun _ same _ => Turn.next.inj same ▸ left
  unfold Turns
  rw [turn?, span, argumentSpan]
  by_cases ended : token.isStructural = true
  · exact ⟨.halt, if_pos ended, if_pos ended, nofun⟩
  rw [if_neg ended, if_neg ended]
  cases token.kind with
  | openParen => exact ⟨_, rfl, rfl, kept (Nat.succ_pos count)⟩
  | closeParen =>
    by_cases few : count ≤ 1
    · refine ⟨.halt, (down?_eq (Nat.ne_of_gt counted) _).trans ?_, if_pos few, nofun⟩
      exact congrArg some (if_pos (by omega))
    · refine ⟨.next (count - 1), (down?_eq (Nat.ne_of_gt counted) _).trans ?_, if_neg few, ?_⟩
      · exact congrArg some (if_neg (by omega))
      · exact kept (by omega)
  | _ => exact ⟨_, rfl, rfl, kept counted⟩

/-- The parenthesis that opens the argument is counted first. -/
theorem argument_turn (opens : token.kind = .openParen) (follower : Token) :
    argument.turn? 0 token follower = some (.next 1) := by
  simp [turn?, Token.isStructural, opens]

theorem argument_span (opens : token.kind = .openParen) (rest : List Token) :
    argument.span 0 (token :: rest) = argument.span 1 rest + 1 := by
  simp [span, argumentSpan, Token.isStructural, opens]

theorem glued_turns : glued.Turns count token rest finish := by
  refine .tested nofun ⟨_, rfl, ?_⟩
  rw [span, Span.glued]
  split <;> rfl

theorem layers_turns : layers.Turns count token rest finish := by
  refine .tested nofun ?_
  cases count with
  | zero =>
    cases rest with
    | nil => exact ⟨.halt, congrArg some (if_neg fun layer => nomatch layer.2.1), rfl⟩
    | cons name rest =>
      by_cases layer : token.kind = .dot ∧ name.kind = .ident ∧ token.stop = name.start.offset
      · refine ⟨.next 1, congrArg some (if_pos layer), (if_pos layer).trans ?_⟩
        exact congrArg (· + 1) (if_pos layer.2.1).symm
      · exact ⟨.halt, congrArg some (if_neg layer), if_neg layer⟩
  | succ count =>
    refine ⟨_, rfl, ?_⟩
    rw [span, layersSpan]
    split <;> rfl

theorem turns (guards : sweep.Guards count) : sweep.Turns count token rest finish := by
  cases sweep with
  | before stop ends => exact before_turns stop ends
  | block => exact block_turns
  | declaration => exact declaration_turns
  | group => exact group_turns
  | atRule => exact atRule_turns
  | inside stop => exact inside_turns stop
  | argument => exact argument_turns (guards rfl)
  | glued => exact glued_turns
  | layers => exact layers_turns

end Turns

/-- The loop runs from one driver to the other, over these tokens. -/
inductive Passes (sweep : Sweep) : Nat → Driver → List Token → Driver → Prop
  | halt {count : Nat} {driver : Driver} {token follower : Token}
      (current : driver.nth? 0 = some token) (next : driver.nth? 1 = some follower)
      (turn : sweep.turn? count token follower = some .halt) : Passes sweep count driver [] driver
  | last {count : Nat} {driver : Driver} {token follower : Token}
      (current : driver.nth? 0 = some token) (next : driver.nth? 1 = some follower)
      (turn : sweep.turn? count token follower = some .last) :
      Passes sweep count driver [token] driver.advance
  | next {count more : Nat} {driver after : Driver} {token follower : Token} {passed : List Token}
      (current : driver.nth? 0 = some token) (next : driver.nth? 1 = some follower)
      (turn : sweep.turn? count token follower = some (.next more))
      (rest : Passes sweep more driver.advance passed after) :
      Passes sweep count driver (token :: passed) after

namespace Passes

variable {sweep : Sweep} {count : Nat} {driver after : Driver} {parser : Parser}

theorem leads {passed : List Token} (passes : sweep.Passes count driver passed after) :
    driver.Leads after := by
  induction passes with
  | halt => exact .refl
  | last => exact .advance
  | next _ _ _ _ further => exact Driver.Leads.advance.trans further

/-- The loop runs from each driver, and to where its stretch of tokens ends. -/
theorem runs (guards : sweep.Guards count) (shows : driver.Shows parser) :
    ∃ after, sweep.Passes count driver (parser.ahead.take (sweep.span count parser.ahead)) after ∧
      after.Shows (parser.skip (sweep.span count parser.ahead)) := by
  obtain ⟨settings, ahead, finish, errors⟩ := parser
  induction ahead generalizing count driver with
  | nil =>
    have halts := sweep.turn?_endOfInput count finish (Token.endOfInput finish)
    rw [span_nil]
    exact ⟨driver, .halt (shows.nth? 0) (shows.nth? 1) halts, shows⟩
  | cons token rest ih =>
    have next : driver.nth? 1 = some (rest.head?.getD (Token.endOfInput finish)) := by
      rw [List.head?_eq_getElem?]
      exact shows.nth? 1
    have turned : sweep.Turns count token rest finish := turns guards
    obtain ⟨turn, is, takes, guarded⟩ := turned
    dsimp only
    rw [takes]
    cases turn with
    | halt => exact ⟨driver, .halt (shows.nth? 0) next is, shows⟩
    | last => exact ⟨driver.advance, .last (shows.nth? 0) next is, shows.advance⟩
    | next more =>
      obtain ⟨after, passes, shown⟩ := ih (guarded more rfl) shows.advance
      exact ⟨after, .next (shows.nth? 0) next is passes, shown⟩

/-- The loop over an argument runs from a driver at a `(`. -/
theorem runs_argument (opens : parser.current.kind = .openParen) (shows : driver.Shows parser) :
    ∃ after, argument.Passes 0 driver (parser.ahead.take (argument.span 0 parser.ahead)) after ∧
      after.Shows (parser.skip (argument.span 0 parser.ahead)) := by
  obtain ⟨settings, ahead, finish, errors⟩ := parser
  cases ahead with
  | nil => exact nomatch opens
  | cons token rest =>
    change token.kind = .openParen at opens
    have counted : argument.Guards 1 := fun _ => Nat.one_pos
    obtain ⟨after, passes, shown⟩ := runs counted shows.advance
    dsimp only
    rw [argument_span opens]
    exact ⟨after, .next (shows.nth? 0) (shows.nth? 1) (argument_turn opens _) passes, shown⟩

end Passes

end Sweep

end CssSyntax

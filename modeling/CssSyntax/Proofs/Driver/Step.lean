import CssSyntax.Proofs.Parser.Motion

/-! A parser as a machine keeps it: all tokens, an index into them, and a count of what is open
around the current one. Each operation that takes an element of a list, cuts one or subtracts is
checked, and gives nothing where an unchecked one would go wrong. -/

namespace CssSyntax

/-- The difference, if it is not below zero. -/
def minus? (left right : Nat) : Option Nat := if right ≤ left then some (left - right) else none

theorem minus?_add (left right : Nat) : minus? (left + right) right = some left := by
  rw [minus?, if_pos (Nat.le_add_left right left), Nat.add_sub_cancel]

structure Driver where
  settings : Settings
  /-- The last of them is the end of the input. -/
  tokens : List Token
  position : Nat
  depth : Nat
  errors : List Diagnostic

namespace Driver

/-- A driver before the first token. The end of the input is put behind tokens that lack it. -/
def ofTokens (settings : Settings) (tokens : List Token) : Driver :=
  let parser := Parser.ofTokens settings tokens
  ⟨settings, parser.ahead ++ [Token.endOfInput parser.finish], 0, 0, []⟩

/-- Tokens that end with the end of the input, which has no bytes, are kept as they are. Behind
others it is put. -/
theorem ofTokens_tokens (settings : Settings) {tokens : List Token} {last : Token}
    (is : tokens.getLast? = some last) :
    (last = Token.endOfInput last.start → (ofTokens settings tokens).tokens = tokens) ∧
      (last.kind ≠ .eof → ∃ finish,
        (ofTokens settings tokens).tokens = tokens ++ [Token.endOfInput finish]) := by
  unfold ofTokens Parser.ofTokens
  rw [is]
  constructor
  · intro ended
    have kind : last.kind = .eof := congrArg Token.kind ended
    simp only [kind, if_true]
    rw [← ended]
    obtain ⟨front, rfl⟩ := List.getLast?_eq_some_iff.1 is
    rw [List.dropLast_concat]
  · intro other
    simp only [other, if_false]
    exact ⟨_, rfl⟩

/-- The token `count` places ahead, or the last one. -/
def nth? (driver : Driver) (count : Nat) : Option Token := do
  let last ← minus? driver.tokens.length 1
  driver.tokens[min (driver.position + count) last]?

def isAdjacent? (driver : Driver) (count : Nat) : Option Bool :=
  if count = 0 ∨ driver.tokens.length ≤ driver.position + count then some false
  else do
    let token ← driver.nth? count
    let before ← driver.nth? (← minus? count 1)
    return token.kind != .eof && before.stop == token.start.offset

/-- The tokens from the current one on. -/
def rest? (driver : Driver) : Option (List Token) :=
  if driver.position ≤ driver.tokens.length then some (driver.tokens.drop driver.position)
  else none

def blockFollows? (driver : Driver) : Option Bool := do
  return ((← driver.rest?).find? Token.isStructural).any fun token => token.kind == .openBrace

def advance (driver : Driver) : Driver :=
  if driver.position + 1 < driver.tokens.length then
    { driver with position := driver.position + 1 }
  else driver

def isFull (driver : Driver) : Bool :=
  driver.settings.maxErrors.any fun limit => limit ≤ driver.errors.length

def record (driver : Driver) (problem : Problem) (token : Token) : Driver :=
  if driver.isFull then driver
  else { driver with errors := driver.errors ++ [Diagnostic.ofToken problem token] }

/-- One more is open. -/
def enter (driver : Driver) : Driver := { driver with depth := driver.depth + 1 }

/-- One less is open. -/
def leave? (driver : Driver) : Option Driver := do
  return { driver with depth := ← minus? driver.depth 1 }

/-- The index is in range, the last token is the end of the input, and no more diagnostics are kept
than the limit allows. -/
structure Sound (driver : Driver) : Prop where
  inside : driver.position < driver.tokens.length
  ends : ∃ last, driver.tokens.getLast? = some last ∧ last.kind = .eof
  limited : ∀ limit ∈ driver.settings.maxErrors, driver.errors.length ≤ limit

/-- What is the same later on, and what only grows. -/
structure Leads (driver after : Driver) : Prop where
  settings : after.settings = driver.settings
  tokens : after.tokens = driver.tokens
  depth : after.depth = driver.depth
  position : driver.position ≤ after.position
  errors : driver.errors <+: after.errors
  sound : driver.Sound → after.Sound

namespace Leads

variable {driver middle after : Driver}

theorem refl : driver.Leads driver :=
  ⟨rfl, rfl, rfl, Nat.le_refl _, List.prefix_refl _, id⟩

theorem trans (near : driver.Leads middle) (far : middle.Leads after) : driver.Leads after where
  settings := far.settings.trans near.settings
  tokens := far.tokens.trans near.tokens
  depth := far.depth.trans near.depth
  position := Nat.le_trans near.position far.position
  errors := near.errors.trans far.errors
  sound := far.sound ∘ near.sound

theorem advance : driver.Leads driver.advance := by
  unfold Driver.advance
  split
  next more =>
    refine ⟨rfl, rfl, rfl, Nat.le_succ _, List.prefix_refl _, fun sound => ?_⟩
    exact ⟨more, sound.ends, sound.limited⟩
  next => exact refl

theorem record {problem : Problem} {token : Token} :
    driver.Leads (driver.record problem token) := by
  unfold Driver.record
  split
  next => exact refl
  next room =>
    refine ⟨rfl, rfl, rfl, Nat.le_refl _, List.prefix_append _ _, fun sound => ?_⟩
    refine ⟨sound.inside, sound.ends, fun limit is => ?_⟩
    have free : driver.errors.length < limit := by
      rw [isFull, Option.mem_def.1 is] at room
      simpa using room
    rw [List.length_append]
    exact free

/-- What goes on one level deeper, and comes back from there, leads on at the level before. -/
theorem nested (inner : driver.enter.Leads middle) (back : middle.leave? = some after) :
    driver.Leads after := by
  have depth : minus? middle.depth 1 = some driver.depth := by
    rw [inner.depth]
    exact minus?_add _ _
  obtain rfl : { middle with depth := driver.depth } = after := by
    simpa [leave?, depth] using back
  refine ⟨inner.settings, inner.tokens, rfl, inner.position, inner.errors, fun sound => ?_⟩
  have deeper := inner.sound ⟨sound.inside, sound.ends, sound.limited⟩
  exact ⟨deeper.inside, deeper.ends, deeper.limited⟩

end Leads

/-- The driver stands where the parser stands. -/
structure Shows (driver : Driver) (parser : Parser) : Prop where
  settings : driver.settings = parser.settings
  tokens : ∃ before, before.length = driver.position ∧
    driver.tokens = before ++ (parser.ahead ++ [Token.endOfInput parser.finish])
  errors : driver.errors = parser.errors

theorem ofTokens_shows (settings : Settings) (tokens : List Token) :
    (ofTokens settings tokens).Shows (Parser.ofTokens settings tokens) := by
  have fresh : (Parser.ofTokens settings tokens).settings = settings ∧
      (Parser.ofTokens settings tokens).errors = [] := by
    unfold Parser.ofTokens
    split
    next => exact ⟨rfl, rfl⟩
    next => split <;> exact ⟨rfl, rfl⟩
  exact ⟨fresh.1.symm, ⟨[], rfl, rfl⟩, fresh.2.symm⟩

namespace Shows

variable {driver : Driver} {parser : Parser} (shows : driver.Shows parser)
include shows

theorem length_eq : driver.tokens.length = driver.position + parser.ahead.length + 1 := by
  obtain ⟨before, length, split⟩ := shows.tokens
  rw [split, ← length]
  simp only [List.length_append, List.length_singleton]
  omega

theorem sound (limited : ∀ limit ∈ driver.settings.maxErrors, driver.errors.length ≤ limit) :
    driver.Sound := by
  refine ⟨?_, ⟨Token.endOfInput parser.finish, ?_, rfl⟩, limited⟩
  · rw [shows.length_eq]
    omega
  · obtain ⟨before, -, split⟩ := shows.tokens
    rw [split, ← List.append_assoc, List.getLast?_append]
    rfl

theorem nth? (count : Nat) : driver.nth? count = some (parser.nth count) := by
  obtain ⟨before, length, split⟩ := shows.tokens
  have last : minus? driver.tokens.length 1 = some (driver.position + parser.ahead.length) := by
    rw [shows.length_eq]
    exact minus?_add _ _
  have place : min (driver.position + count) (driver.position + parser.ahead.length) =
      before.length + min count parser.ahead.length := by
    rw [length]
    omega
  simp only [Driver.nth?, last, Option.bind_eq_bind, Option.bind_some]
  rw [place, split, List.getElem?_append_right (Nat.le_add_right _ _), Nat.add_sub_cancel_left]
  unfold Parser.nth
  by_cases inside : count < parser.ahead.length
  · rw [Nat.min_eq_left (Nat.le_of_lt inside), List.getElem?_append_left inside,
      List.getElem?_eq_getElem inside]
    rfl
  · have past := Nat.le_of_not_lt inside
    rw [Nat.min_eq_right past, List.getElem?_concat_length, List.getElem?_eq_none past]
    rfl

theorem isAdjacent? (count : Nat) : driver.isAdjacent? count = some (parser.isAdjacent count) := by
  unfold Driver.isAdjacent? Parser.isAdjacent
  split
  next none =>
    rcases none with rfl | past
    · rfl
    · have ended : parser.nth count = Token.endOfInput parser.finish := by
        have beyond : parser.ahead.length ≤ count := by
          rw [shows.length_eq] at past
          omega
        rw [Parser.nth, List.getElem?_eq_none beyond]
        rfl
      simp [ended, Token.endOfInput]
  next some =>
    rw [not_or] at some
    obtain ⟨before, rfl⟩ := Nat.exists_eq_succ_of_ne_zero some.1
    have first : minus? before.succ 1 = Option.some before := minus?_add _ _
    simp only [shows.nth?, first, Option.bind_eq_bind, Option.bind_some, Nat.succ_sub_one]
    simp

theorem rest? : driver.rest? = some (parser.ahead ++ [Token.endOfInput parser.finish]) := by
  obtain ⟨before, length, split⟩ := shows.tokens
  have inside : driver.position ≤ driver.tokens.length := by
    rw [shows.length_eq]
    omega
  rw [Driver.rest?, if_pos inside, split, ← length, List.drop_left]

theorem blockFollows? : driver.blockFollows? = some parser.blockFollows := by
  unfold Driver.blockFollows? Parser.blockFollows
  rw [shows.rest?]
  simp only [Option.bind_eq_bind, Option.bind_some, List.find?_append]
  cases parser.ahead.find? Token.isStructural with
  | none => rfl
  | some token => rfl

theorem advance : driver.advance.Shows (parser.skip 1) := by
  have length := shows.length_eq
  obtain ⟨before, place, split⟩ := shows.tokens
  unfold Driver.advance
  cases ahead : parser.ahead with
  | nil =>
    rw [ahead, List.length_nil] at length
    rw [if_neg (by omega)]
    refine ⟨shows.settings, ⟨before, place, ?_⟩, shows.errors⟩
    rw [split, Parser.skip, ahead]
    rfl
  | cons token rest =>
    rw [ahead, List.length_cons] at length
    rw [if_pos (by omega)]
    refine ⟨shows.settings, ⟨before ++ [token], ?_, ?_⟩, shows.errors⟩
    · rw [List.length_append, place]
      rfl
    · change driver.tokens = _
      rw [split, Parser.skip, ahead, List.append_assoc]
      rfl

theorem record (problem : Problem) (token : Token) :
    (driver.record problem token).Shows (parser.record problem token) := by
  have full : driver.isFull = parser.isFull := by
    rw [isFull, Parser.isFull, shows.settings, shows.errors]
  unfold Driver.record Parser.record
  rw [full]
  split
  next => exact shows
  next => exact ⟨shows.settings, shows.tokens, congrArg (· ++ _) shows.errors⟩

theorem enter : driver.enter.Shows parser := ⟨shows.settings, shows.tokens, shows.errors⟩

theorem leave? {depth : Nat} (level : driver.depth = depth + 1) :
    ∃ after, driver.leave? = some after ∧ after.Shows parser := by
  have less : minus? driver.depth 1 = some depth := level ▸ minus?_add depth 1
  refine ⟨{ driver with depth }, ?_, ⟨shows.settings, shows.tokens, shows.errors⟩⟩
  rw [Driver.leave?, less]
  rfl

/-- After a step of the parser that takes a token, the driver stands further on. -/
theorem position_lt {after : Driver} {next : Parser} (shown : after.Shows next)
    (leads : driver.Leads after) (shorter : next.ahead.length < parser.ahead.length) :
    driver.position < after.position := by
  have first := shows.length_eq
  have second := shown.length_eq
  rw [leads.tokens] at second
  omega

end Shows

end Driver

end CssSyntax

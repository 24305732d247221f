import CssSyntax.Proofs.Nesting.Rule
import CssSyntax.Proofs.Tree.Depth
import CssSyntax.Report

/-! Where a construct is too deep it is skipped, and the skip goes as far as the construct would
have gone, unless there is a problem in it. -/

namespace CssSyntax

open Reading CssSyntax.Span

/-- The constructs that nest up to a limit. -/
inductive Guarded
  | atRule
  | ruleSetBlock
  | arguments
  | supportsGroup
  | containerCondition

namespace Guarded

/-- Where a construct is met. The parenthesis before the arguments of a call or of a group is taken
before they are. -/
def starts (construct : Guarded) (token : Token) : Bool :=
  match construct with
  | .atRule => token.kind == .atSign
  | .ruleSetBlock => token.kind == .openBrace
  | .arguments => true
  | .supportsGroup => token.kind == .openParen
  | .containerCondition => token.kind == .openParen

/-- The construct where there is so much room for nesting. Only how far it is read is of interest
here, not what it yields. -/
def reading (construct : Guarded) (room : Nat) : Reading Unit :=
  match construct with
  | .atRule => (fun _ => ()) <$> Grammar.atRule room
  | .ruleSetBlock => (fun _ => ()) <$> Grammar.Counter.blockWithin room
  | .arguments => (fun _ => ()) <$> Grammar.arguments room
  | .supportsGroup => (fun _ => ()) <$> Grammar.supportsGroup room
  | .containerCondition => (fun _ => ()) <$> Grammar.containerCondition room

/-- The construct where `depth` others are open around it. -/
def readingAt (construct : Guarded) (depth : Nat) : Reading Unit :=
  construct.reading (Grammar.nestingLimit - depth)

/-- A group with its opening parenthesis. -/
def wholeGroup (tokens : List Token) : Nat := 1 + Span.group 0 (tokens.drop 1)

/-- What is skipped in place of a construct. -/
def span (construct : Guarded) : List Token → Nat :=
  match construct with
  | .atRule => Span.atRule 0
  | .ruleSetBlock => Span.block 0
  | .arguments => Span.group 0
  | .supportsGroup => wholeGroup
  | .containerCondition => wholeGroup

/-- Without room nothing but the skip is left of a construct. -/
theorem ahead_without_room (construct : Guarded) (parser : Parser) :
    (construct.reading 0 parser).2.ahead = past construct.span parser.ahead := by
  have skips (problem : Problem) (stretch : List Token → Nat) :
      ((report problem >>= fun _ => skip stretch) parser).2.ahead =
        past stretch parser.ahead := by
    change past stretch (report problem parser).2.ahead = _
    rw [ahead_report]
  have drops (problem : Problem) :
      ((report problem >>= fun _ => advance >>= fun _ => skipGroup) parser).2.ahead =
        past wholeGroup parser.ahead := by
    change past (Span.group 0) ((report problem parser).2.ahead.drop 1) = _
    rw [ahead_report]
    exact List.drop_drop
  cases construct with
  | atRule => exact skips _ _
  | ruleSetBlock => exact skips _ _
  | arguments => exact skips _ _
  | supportsGroup => exact drops _
  | containerCondition => exact drops _

theorem wholeGroup_steps (token : Token) : Steps wholeGroup (Span.group 0) token :=
  fun _ => Nat.add_comm ..

theorem block_steps {token : Token} (opens : token.kind = .openBrace) :
    Steps (Span.block 0) (Span.block 1) token := by
  intro rest
  simp only [Span.block, opens]

/-- A construct without problems ends where the skip in its place ends. -/
theorem reading_tracks {construct : Guarded} {parser : Parser} (room : Nat)
    (starts : construct.starts parser.current = true) :
    (construct.reading room).Tracks construct.span (fun _ => 0) parser := by
  cases construct with
  | atRule =>
    have rules := Grammar.rules_track .rules room
    exact Tracks.map (rules.atRule 0 _ parser Skipper.rules_starts (eq_of_beq starts))
  | ruleSetBlock =>
    cases room with
    | zero => exact Tracks.map Tracks.report
    | succ room =>
      have rules := Grammar.rules_track .blocks room
      have opens := block_steps (eq_of_beq starts)
      have block : (Grammar.ruleSetBlock room _ _).Tracks (Span.block 0)
          (Skipper.blocks.level 0) parser := Grammar.ruleSetBlock_tracks rules opens
      exact Tracks.map block
  | arguments =>
    have ends : (Grammar.arguments room).Ends .groups 0 parser :=
      Grammar.arguments_ends room 0 parser
    exact Tracks.map ends
  | supportsGroup =>
    have group : (Grammar.supportsGroup room).Tracks wholeGroup (Skipper.groups.level 0) parser :=
      Grammar.supportsGroup_tracks (wholeGroup_steps _)
    exact Tracks.map group
  | containerCondition =>
    have group : (Grammar.containerCondition room).Tracks wholeGroup (Skipper.groups.level 0)
        parser := Grammar.containerCondition_tracks (wholeGroup_steps _)
    exact Tracks.map group

/-- A construct that is read without a new diagnostic at some depth ends, if it is met at the limit
instead, at the same token. -/
theorem ahead_at_limit (construct : Guarded) (parser : Parser) (depth : Nat)
    (starts : construct.starts parser.current = true)
    (unlimited : parser.settings.maxErrors = none)
    (clean : (construct.readingAt depth parser).2.errors = parser.errors) :
    (construct.readingAt Grammar.nestingLimit parser).2.ahead =
      (construct.readingAt depth parser).2.ahead := by
  -- All problems are recorded, so none was found where none is new.
  have quiet : (construct.readingAt depth).found parser = [] := by
    have all := errors_eq (construct.readingAt depth) parser
    rw [unlimited, clean] at all
    exact List.self_eq_append_right.1 all
  have same := reading_tracks (Grammar.nestingLimit - depth) starts quiet
  unfold readingAt
  rw [Nat.sub_self, ahead_without_room, same]
  rfl

/-- A media rule with a rule-set and a call in it. Another rule stands behind it. -/
theorem ahead_at_limit_media :
    ∃ parser, parser = Parser.ofTokens .standard
        (tokenize (utf8 "@media x { a { b: f(c) } } d { }")) ∧
      atRule.starts parser.current = true ∧ parser.settings.maxErrors = none ∧
      (atRule.readingAt 5 parser).2.errors = parser.errors ∧
      (atRule.readingAt 5 parser).2.ahead.length = 3 ∧
      (atRule.readingAt Grammar.nestingLimit parser).2.ahead =
        (atRule.readingAt 5 parser).2.ahead := by
  obtain ⟨parser, is⟩ : ∃ parser, parser = Parser.ofTokens .standard
    (tokenize (utf8 "@media x { a { b: f(c) } } d { }")) := ⟨_, rfl⟩
  have starts : atRule.starts parser.current = true := by
    rw [is]
    decide +kernel
  have unlimited : parser.settings.maxErrors = none := by
    rw [is]
    decide +kernel
  have clean : (atRule.readingAt 5 parser).2.errors = parser.errors := by
    rw [is]
    decide +kernel
  have rest : (atRule.readingAt 5 parser).2.ahead.length = 3 := by
    rw [is]
    decide +kernel
  have same := ahead_at_limit atRule parser 5 starts unlimited clean
  exact ⟨parser, is, starts, unlimited, clean, rest, same⟩

end Guarded

end CssSyntax

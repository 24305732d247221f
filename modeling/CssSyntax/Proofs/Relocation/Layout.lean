import CssSyntax.Proofs.Relocation.Compose

/-! The layout of a source. White space parts tokens and does nothing else: where two sources have
the same tokens in the same order, and the same of them touch, one is a relocation of the other, so
both have the same tree and the same problems. -/

namespace CssSyntax

/-- What a diagnostic complains of, wherever it points. -/
def Diagnostic.content (diagnostic : Diagnostic) : Problem × Kind :=
  (diagnostic.problem, diagnostic.token)

/-- For each token but the last, whether the one after it starts where it stops. -/
def touching : List Token → List Bool
  | left :: right :: rest => (left.stop == right.start.offset) :: touching (right :: rest)
  | _ => []

/-- Lists of tokens that say the same. Their places may differ, but not which of them touch. -/
structure SameLayout (tokens others : List Token) : Prop where
  contents : tokens.map Token.content = others.map Token.content
  touching : touching tokens = touching others

/-- Tokens as they stand in a source: each starts after the one before it has started and has
stopped. -/
structure InOrder (tokens : List Token) : Prop where
  starts : tokens.Pairwise fun left right => left.start.offset < right.start.offset
  stops : tokens.IsChain fun left right => left.stop ≤ right.start.offset

theorem Lossless.inOrder {source : Bytes} {tokens : List Token}
    (lossless : Lossless source tokens) : InOrder tokens where
  starts := lossless.increasing
  stops := lossless.between.imp fun _ _ blank => blank.1

namespace InOrder

variable {token next : Token} {tokens rest : List Token}

theorem tail (inOrder : InOrder (token :: tokens)) : InOrder tokens :=
  ⟨inOrder.starts.of_cons, inOrder.stops.of_cons⟩

/-- A token behind the next one does not touch. -/
theorem apart (inOrder : InOrder (token :: next :: rest)) :
    ∀ later ∈ rest, token.stop ≠ later.start.offset := by
  intro later member
  have stops := inOrder.stops.rel
  have starts := List.rel_of_pairwise_cons inOrder.starts.of_cons member
  omega

end InOrder

namespace Relocation

variable {relocation : Relocation}

/-- Where neighbours touch at their new places if they touched before, all tokens do. -/
theorem keeps_of_touching {tokens : List Token} (inOrder : InOrder tokens)
    (moved : InOrder (tokens.map relocation.token))
    (same : touching tokens = touching (tokens.map relocation.token)) :
    relocation.Keeps tokens := by
  induction tokens with
  | nil => exact .nil
  | cons left rest ih =>
    cases rest with
    | nil => exact List.pairwise_singleton _ _
    | cons right rest =>
      obtain ⟨neighbours, others⟩ := List.cons.inj same
      refine List.pairwise_cons.2 ⟨fun later member => ?_, ih inOrder.tail moved.tail others⟩
      rcases List.mem_cons.1 member with rfl | member
      · rw [Bool.eq_iff_iff, beq_iff_eq, beq_iff_eq] at neighbours
        exact neighbours.symm
      · have here := inOrder.apart later member
        have there := moved.apart (relocation.token later) (List.mem_map_of_mem member)
        exact ⟨fun touch => absurd touch there, fun touch => absurd touch here⟩

/-- Where the tokens of one list stand in another one. -/
def placeIn : List Token → List Token → Position → Position
  | token :: tokens, other :: others, position =>
    if position = token.start then other.start else placeIn tokens others position
  | _, _, position => position

/-- Each token goes where the token that says the same is in the other list. -/
def align (tokens others : List Token) (finish : Position) : Relocation :=
  ⟨placeIn tokens others, [], finish⟩

theorem map_align {tokens others : List Token} {finish : Position}
    (contents : tokens.map Token.content = others.map Token.content)
    (starts : tokens.Pairwise fun left right => left.start.offset < right.start.offset) :
    tokens.map (align tokens others finish).token = others := by
  induction tokens generalizing others with
  | nil => exact (List.map_eq_nil_iff.1 contents.symm).symm
  | cons token tokens ih =>
    cases others with
    | nil => exact absurd contents (List.cons_ne_nil _ _)
    | cons other others =>
      obtain ⟨content, contents⟩ := List.cons.inj contents
      have first : (align (token :: tokens) (other :: others) finish).token token = other := by
        obtain ⟨kind, literal⟩ := Prod.mk.inj content
        obtain ⟨_, _, start⟩ := other
        obtain rfl : token.kind = _ := kind
        obtain rfl : token.literal = _ := literal
        exact congrArg (Token.mk _ _) (if_pos rfl)
      have later : tokens.map (align (token :: tokens) (other :: others) finish).token =
          tokens.map (align tokens others finish).token := by
        refine List.map_congr_left fun later member => ?_
        have further := List.rel_of_pairwise_cons starts member
        have elsewhere : later.start ≠ token.start :=
          fun same => Nat.ne_of_gt further (congrArg Position.offset same)
        exact congrArg (Token.mk _ _) (if_neg elsewhere)
      rw [List.map_cons, first, later, ih contents starts.of_cons]

/-- The problems of relocated tokens are the same problems. -/
theorem content_same {found moved : List Diagnostic}
    (same : List.Forall₂ relocation.Same found moved) :
    moved.map Diagnostic.content = found.map Diagnostic.content := by
  induction same with
  | nil => rfl
  | cons first _ ih =>
    obtain ⟨problem, token, rfl, rfl⟩ := first
    rw [List.map_cons, List.map_cons, ih]
    rfl

end Relocation

/-- As many of the diagnostics are recorded as of others. -/
theorem content_capped {limit : Option Nat} {found moved : List Diagnostic}
    (same : moved.map Diagnostic.content = found.map Diagnostic.content) :
    (capped limit [] moved).map Diagnostic.content =
      (capped limit [] found).map Diagnostic.content := by
  cases limit with
  | none => exact same
  | some count => simp only [capped, List.nil_append, List.map_take, same]

/-- Sources of one layout are one relocated: what the parser has ahead of it in one goes where it is
in the other, and so does the end of the input. -/
theorem SameLayout.exists_relocation {source text : Bytes} {front back : List Token}
    {stop finish : Position} (same : SameLayout (tokenize source) (tokenize text))
    (split : tokenize source = front ++ [Token.endOfInput stop])
    (divided : tokenize text = back ++ [Token.endOfInput finish]) :
    ∃ relocation : Relocation, relocation.Keeps front ∧
      ∀ settings, relocation.Closed ⟨settings, front, stop, []⟩ ∧
        relocation.parser ⟨settings, front, stop, []⟩ = ⟨settings, back, finish, []⟩ := by
  have inOrder := (tokenize_tiles source).lossless.inOrder
  have moved := (tokenize_tiles text).lossless.inOrder
  let relocation := Relocation.align (tokenize source) (tokenize text) finish
  have aligned : (tokenize source).map relocation.token = tokenize text :=
    Relocation.map_align same.contents inOrder.starts
  have keeps : relocation.Keeps (tokenize source) :=
    Relocation.keeps_of_touching inOrder (aligned ▸ moved) (aligned ▸ same.touching)
  -- The end of the input is one of the tokens and goes where it is in the other source.
  have ends : front.map relocation.token ++ [relocation.token (Token.endOfInput stop)] =
      back ++ [Token.endOfInput finish] := by
    rw [← divided, ← aligned, split, List.map_append]
    rfl
  obtain ⟨fronts, last⟩ := List.append_inj' ends rfl
  have place : relocation.place stop = finish := congrArg Token.start (List.cons.inj last).1
  refine ⟨relocation, keeps.sublist (split ▸ List.sublist_append_left front _),
    fun settings => ⟨⟨rfl, place.symm⟩, ?_⟩⟩
  rw [← fronts]
  exact congrArg (fun ahead => Parser.mk settings ahead finish []) (List.append_nil _)

/-- Layout does not matter. Two sources whose tokens say the same and touch at the same places have
the same tree, and the same problems are found at tokens of the same kinds. -/
theorem parse_ignores_layout (options : Options) (source text : Bytes)
    (same : SameLayout (tokenize source) (tokenize text)) :
    (Report.ofSource options source).stylesheet = (Report.ofSource options text).stylesheet ∧
      (Report.ofSource options source).errors.map Diagnostic.content =
        (Report.ofSource options text).errors.map Diagnostic.content := by
  obtain ⟨front, stop, split, _, _⟩ := (tokenize_tiles source).lossless.finish
  obtain ⟨back, finish, divided, _, _⟩ := (tokenize_tiles text).lossless.finish
  obtain ⟨relocation, keeps, moves⟩ := same.exists_relocation split divided
  obtain ⟨start, other⟩ := moves options.settings
  let read := Grammar.stylesheet Grammar.nestingLimit
  let parser : Parser := ⟨options.settings, front, stop, []⟩
  have closed : relocation.Closed (read parser).2 :=
    ⟨start.nothing,
      start.finish.trans (congrArg relocation.place (read.follows parser).finish.symm)⟩
  obtain ⟨problems, alike, run⟩ :=
    Grammar.stylesheet_carries Grammar.nestingLimit parser keeps (.inl closed)
  have whole : read (relocation.parser parser) = _ := run options.maxErrors []
  rw [other] at whole
  rw [Report.ofSource_eq split, Report.ofSource_eq divided]
  dsimp only
  rw [show Grammar.stylesheet Grammar.nestingLimit ⟨options.settings, back, finish, []⟩ = _ from
    whole]
  refine ⟨rfl, ?_⟩
  rw [Reading.errors_eq]
  exact (content_capped (Relocation.content_same alike)).symm

/-- Signs, units and names on lines of their own, and a semicolon too many on one more. -/
theorem parse_ignores_layout_lines :
    ∃ source text, SameLayout (tokenize source) (tokenize text) ∧
      (Report.ofSource .standard source).stylesheet = (Report.ofSource .standard text).stylesheet ∧
      (Report.ofSource .standard source).errors = [⟨.misplacedAtTop, 1, 35, .semicolon⟩] ∧
      (Report.ofSource .standard text).errors = [⟨.misplacedAtTop, 9, 1, .semicolon⟩] := by
  let source := utf8 "a \x7b b: +.5px 1 px /* c */ #d e; \x7d ;"
  let text := utf8 "a\n\x7b\tb:\n+.5px\r\n1\npx \t /* c */\n#d\ne;\n\x7d\n;"
  have same : SameLayout (tokenize source) (tokenize text) :=
    ⟨by decide +kernel, by decide +kernel⟩
  have found : (Report.ofSource .standard source).errors =
      [⟨.misplacedAtTop, 1, 35, .semicolon⟩] := by
    decide +kernel
  have moved : (Report.ofSource .standard text).errors =
      [⟨.misplacedAtTop, 9, 1, .semicolon⟩] := by
    decide +kernel
  exact ⟨source, text, same, (parse_ignores_layout .standard source text same).1, found, moved⟩

end CssSyntax

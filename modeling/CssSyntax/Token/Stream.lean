import CssSyntax.Token.Lexeme

/-! The tokens of a source. White space is dropped before each token, and one end-of-input token
closes the list. A `Tokenizer` hands the same tokens out one at a time. -/

namespace CssSyntax

/-- A token cut off the front of the source: the white space before it, its kind, its bytes and
what is left. -/
structure Cut where
  gap : Bytes
  kind : Kind
  literal : Bytes
  rest : Bytes

/-- None when only white space is left. -/
def Cut.ofBytes? (source : Bytes) : Option Cut :=
  match source.dropWhile Byte.isWhiteSpace with
  | [] => none
  | first :: rest =>
    let lexeme := Lexeme.ofFirst first rest
    some
      { gap := source.takeWhile Byte.isWhiteSpace
        kind := lexeme.kind
        literal := first :: rest.take lexeme.extra
        rest := rest.drop lexeme.extra }

theorem Cut.ofBytes?_append {source : Bytes} {cut : Cut} (found : Cut.ofBytes? source = some cut) :
    cut.gap ++ cut.literal ++ cut.rest = source := by
  unfold Cut.ofBytes? at found
  split at found
  · simp at found
  · next first rest split =>
    obtain rfl := Option.some.inj found
    simp only [List.cons_append, List.append_assoc, List.take_append_drop]
    rw [← split, List.takeWhile_append_dropWhile]

theorem Cut.literal_ne_nil {source : Bytes} {cut : Cut} (found : Cut.ofBytes? source = some cut) :
    cut.literal ≠ [] := by
  unfold Cut.ofBytes? at found
  split at found
  · simp at found
  · obtain rfl := Option.some.inj found
    simp

theorem Cut.rest_shorter {source : Bytes} {cut : Cut} (found : Cut.ofBytes? source = some cut) :
    cut.rest.length < source.length := by
  have whole := congrArg List.length (Cut.ofBytes?_append found)
  have some := List.length_pos_iff.2 (Cut.literal_ne_nil found)
  simp only [List.length_append] at whole
  omega

/-- The tokens of `source`, whose first byte stands at `position`. -/
def tokensFrom (position : Position) (source : Bytes) : List Token :=
  match _found : Cut.ofBytes? source with
  | none => [Token.endOfInput (position.after source)]
  | some cut =>
    let start := position.after cut.gap
    ⟨cut.kind, cut.literal, start⟩ :: tokensFrom (start.after cut.literal) cut.rest
termination_by source.length
decreasing_by exact Cut.rest_shorter _found

theorem tokensFrom_none {position : Position} {source : Bytes}
    (none : Cut.ofBytes? source = none) :
    tokensFrom position source = [Token.endOfInput (position.after source)] := by
  rw [tokensFrom, none]

theorem tokensFrom_cut {position : Position} {source : Bytes} {cut : Cut}
    (found : Cut.ofBytes? source = some cut) :
    tokensFrom position source =
      ⟨cut.kind, cut.literal, position.after cut.gap⟩ ::
        tokensFrom ((position.after cut.gap).after cut.literal) cut.rest := by
  rw [tokensFrom, found]

theorem tokensFrom_nil (position : Position) :
    tokensFrom position [] = [Token.endOfInput position] :=
  tokensFrom_none rfl

theorem tokensFrom_ne_nil (position : Position) (source : Bytes) :
    tokensFrom position source ≠ [] := by
  rw [tokensFrom]
  split <;> exact List.cons_ne_nil _ _

def tokenize (source : Bytes) : List Token := tokensFrom .start source

/-- A source read token by token. `finished` is set once the end of the input was handed out by
`next?`. -/
structure Tokenizer where
  ahead : Bytes
  position : Position
  finished : Bool

namespace Tokenizer

def ofBytes (source : Bytes) : Tokenizer := ⟨source, .start, false⟩

/-- The next token, and at the end of the input its end-of-input token each time. -/
def consume (tokenizer : Tokenizer) : Token × Tokenizer :=
  match Cut.ofBytes? tokenizer.ahead with
  | none =>
    let stop := tokenizer.position.after tokenizer.ahead
    (Token.endOfInput stop, { tokenizer with ahead := [], position := stop })
  | some cut =>
    let start := tokenizer.position.after cut.gap
    (⟨cut.kind, cut.literal, start⟩,
      { tokenizer with ahead := cut.rest, position := start.after cut.literal })

/-- The next token until the end of the input was handed out, then none. -/
def next? (tokenizer : Tokenizer) : Option Token × Tokenizer :=
  if tokenizer.finished then (none, tokenizer)
  else
    let (token, after) := tokenizer.consume
    (some token, { after with finished := token.kind == .eof })

/-- What `next?` still hands out. -/
def rest (tokenizer : Tokenizer) : List Token :=
  if tokenizer.finished then [] else tokensFrom tokenizer.position tokenizer.ahead

/-- The two ways to ask for a token. -/
inductive Pull where
  | next
  | consume

def pull (tokenizer : Tokenizer) : Pull → Option Token × Tokenizer
  | .next => tokenizer.next?
  | .consume =>
    let (token, after) := tokenizer.consume
    (some token, after)

/-- The answers to a sequence of pulls. -/
def run : Tokenizer → List Pull → List (Option Token)
  | _, [] => []
  | tokenizer, pull :: pulls =>
    let (answer, after) := tokenizer.pull pull
    answer :: after.run pulls

end Tokenizer

end CssSyntax

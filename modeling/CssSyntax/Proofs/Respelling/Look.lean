import CssSyntax.Grammar.Rule
import CssSyntax.Proofs.Parser.Motion
import CssSyntax.Proofs.Parser.Spans
import CssSyntax.Proofs.Respelling.Tree

/-! Looks at the tokens of a source that was written again. They show the same kinds, the same gaps
and the same words, and a text that is read off the tokens is respelled. -/

namespace CssSyntax

/-- True of a string that starts with its quote, and of all other tokens. -/
def Token.Quoted (token : Token) : Prop :=
  token.kind = .string → token.literal.head?.any Byte.isQuote = true

def Parser.Quoted (parser : Parser) : Prop := ∀ token ∈ parser.ahead, token.Quoted

section Quotes

theorem Lexeme.ofFirst_string (first : UInt8) (rest : Bytes)
    (string : (Lexeme.ofFirst first rest).kind = .string) : Byte.isQuote first = true := by
  by_contra other
  have never : (Lexeme.ofFirst first rest).kind ≠ .string := by
    have punctuation : ∀ code : Fin 256, Kind.ofPunctuation? (UInt8.ofFin code) ≠ some .string := by
      decide +kernel
    unfold Lexeme.ofFirst
    split
    next kind found =>
      rintro rfl
      exact punctuation first.toFin found
    next =>
      rw [if_neg other]
      unfold Lexeme.ofCaret Lexeme.ofColon Lexeme.ofHash Lexeme.ofHyphen Lexeme.ofSlash
        Lexeme.ofWord
      dsimp only
      repeat' split
      all_goals simp
  exact never string

theorem tokensFrom_quoted (position : Position) (source : Bytes) :
    ∀ token ∈ tokensFrom position source, token.Quoted := by
  fun_induction tokensFrom position source with
  | case1 position source none =>
    intro token member
    obtain rfl := List.mem_singleton.1 member
    exact fun string => absurd string (by simp [Token.endOfInput])
  | case2 position source cut found start ih =>
    intro token member
    rcases List.mem_cons.1 member with rfl | later
    · intro string
      unfold Cut.ofBytes? at found
      split at found
      · exact absurd found.symm (Option.some_ne_none _)
      · next first rest _ =>
        obtain rfl := Option.some.inj found
        exact Lexeme.ofFirst_string first rest string
    · exact ih token later

theorem Parser.ofTokens_quoted (settings : Settings) (source : Bytes) :
    (Parser.ofTokens settings (tokenize source)).Quoted := by
  intro token member
  apply tokensFrom_quoted .start source
  unfold Parser.ofTokens at member
  split at member
  · exact absurd member List.not_mem_nil
  · split at member
    · exact (List.dropLast_sublist _).subset member
    · exact member

/-- The tokens further on are quoted like all tokens ahead. -/
theorem Reading.quoted_after {α : Type} (reading : Reading α) {parser : Parser}
    (quoted : parser.Quoted) : (reading parser).2.Quoted :=
  fun token member => quoted token ((reading.follows parser).ahead.subset member)

theorem Parser.Quoted.current {parser : Parser} (quoted : parser.Quoted) :
    parser.current.Quoted := by
  intro string
  have notEnd : parser.current.kind ≠ .eof := by
    rw [string]
    nofun
  obtain ⟨rest, split⟩ := Parser.ahead_eq_cons notEnd
  exact quoted _ (split ▸ List.mem_cons_self) string

end Quotes

namespace Respelling

def settings (respelling : Respelling) (settings : Settings) : Settings :=
  { settings with keepComments := respelling.keepsComments && settings.keepComments }

/-- The same place in the source that was written again. -/
def parser (respelling : Respelling) (parser : Parser) : Parser :=
  { parser with
    settings := respelling.settings parser.settings
    ahead := parser.ahead.map respelling.token }

variable {respelling : Respelling} {parser : Parser}

section Looks

theorem token_kind (token : Token) : (respelling.token token).kind = token.kind := rfl

@[simp]
theorem token_stop (token : Token) : (respelling.token token).stop = token.stop := by
  unfold Token.stop Respelling.token
  rw [List.length_map]

@[simp]
theorem token_isWord (token : Token) (word : Bytes) :
    (respelling.token token).isWord word = token.isWord word := by
  unfold Token.isWord Respelling.token
  rw [map_sameIgnoringCase]

theorem nth_respelled (count : Nat) :
    (respelling.parser parser).nth count = respelling.token (parser.nth count) := by
  unfold Parser.nth Respelling.parser
  rw [List.getElem?_map]
  cases parser.ahead[count]? <;> rfl

theorem current_respelled :
    (respelling.parser parser).current = respelling.token parser.current :=
  nth_respelled 0

theorem next_respelled : (respelling.parser parser).next = respelling.token parser.next :=
  nth_respelled 1

@[simp]
theorem currentIs_respelled (kind : Kind) :
    (respelling.parser parser).currentIs kind = parser.currentIs kind := by
  unfold Parser.currentIs
  rw [current_respelled]
  rfl

@[simp]
theorem nextIs_respelled (kind : Kind) :
    (respelling.parser parser).nextIs kind = parser.nextIs kind := by
  unfold Parser.nextIs
  rw [next_respelled]
  rfl

@[simp]
theorem isAdjacent_respelled (count : Nat) :
    (respelling.parser parser).isAdjacent count = parser.isAdjacent count := by
  unfold Parser.isAdjacent
  rw [nth_respelled, nth_respelled, token_stop]
  rfl

theorem blockFollows_respelled :
    (respelling.parser parser).blockFollows = parser.blockFollows := by
  unfold Parser.blockFollows Respelling.parser
  rw [List.find?_map]
  have same : Token.isStructural ∘ respelling.token = Token.isStructural := rfl
  rw [same]
  cases parser.ahead.find? Token.isStructural <;> rfl

theorem startsNumeric_respelled :
    (respelling.parser parser).startsNumeric = parser.startsNumeric := by
  unfold Parser.startsNumeric
  simp only [current_respelled, nth_respelled, isAdjacent_respelled]
  rfl

@[simp]
theorem isUnit_map (bytes : Bytes) : isUnit (bytes.map respelling.byte) = isUnit bytes := by
  have percent : (bytes.map respelling.byte == utf8 "%") = (bytes == utf8 "%") := by
    rw [Bool.eq_iff_iff, beq_iff_eq, beq_iff_eq]
    have sign : utf8 "%" = [0x25] := rfl
    rw [sign]
    constructor
    · intro same
      obtain ⟨byte, rfl, written⟩ := List.map_eq_singleton_iff.1 same
      rw [(byte_eq_iff rfl).1 written]
    · rintro rfl
      rw [List.map_singleton, byte_plain rfl]
  unfold isUnit
  simp only [percent, sameIgnoringCase_map]

theorem unitFollows_respelled : (respelling.parser parser).unitFollows = parser.unitFollows := by
  have literal : parser.next.literal.map respelling.byte =
      (respelling.token parser.next).literal := rfl
  unfold Parser.unitFollows
  rw [isAdjacent_respelled, nextIs_respelled, nextIs_respelled, next_respelled, ← literal,
    isUnit_map]

theorem importantFollows_respelled :
    ((respelling.parser parser).currentIs .exclamation &&
      (respelling.parser parser).next.isWord Word.importantWord) =
        (parser.currentIs .exclamation && parser.next.isWord Word.importantWord) := by
  rw [currentIs_respelled, next_respelled, token_isWord]

theorem isContainerName_respelled :
    Grammar.isContainerName (respelling.parser parser) = Grammar.isContainerName parser := by
  unfold Grammar.isContainerName Grammar.isAnd
  simp only [current_respelled, token_isWord, nextIs_respelled, isAdjacent_respelled]
  rfl

theorem startsUrl_respelled :
    Grammar.startsUrl (respelling.parser parser) = Grammar.startsUrl parser := by
  unfold Grammar.startsUrl
  rw [current_respelled, token_isWord, nextIs_respelled]
  rfl

theorem namesAtRule_respelled :
    Grammar.namesAtRule (respelling.parser parser) = Grammar.namesAtRule parser := by
  unfold Grammar.namesAtRule
  rw [nextIs_respelled, isAdjacent_respelled]

/-- A registry knows names in any case. -/
theorem lookup_map (registry : Registry) (name : Bytes) :
    registry.lookup (name.map respelling.byte) = registry.lookup name := by
  unfold Registry.lookup
  rw [lower_map]

theorem isCustomProperty_map (key : Bytes) :
    Grammar.isCustomProperty (key.map respelling.byte) = Grammar.isCustomProperty key := by
  have hyphens : utf8 "--" = [Byte.hyphen, Byte.hyphen] := rfl
  have hyphen (byte : UInt8) :
      Byte.hyphen = respelling.byte byte ↔ Byte.hyphen = byte := by
    rw [eq_comm, byte_eq_iff rfl, eq_comm]
  unfold Grammar.isCustomProperty
  rw [hyphens]
  match key with
  | [] => rfl
  | [first] => simp [List.isPrefixOf]
  | first :: second :: rest =>
    rw [Bool.eq_iff_iff, List.isPrefixOf_iff_prefix, List.isPrefixOf_iff_prefix]
    simp only [List.map_cons, List.cons_prefix_cons, List.nil_prefix, and_true, hyphen]

end Looks

section Stretches

theorem length_respelled : (respelling.parser parser).ahead.length = parser.ahead.length :=
  List.length_map _

theorem skip_respelled (count : Nat) :
    (respelling.parser parser).skip count = respelling.parser (parser.skip count) := by
  unfold Parser.skip Respelling.parser
  rw [List.map_drop]

theorem record_respelled (problem : Problem) (token : Token) :
    (respelling.parser parser).record problem (respelling.token token) =
      respelling.parser (parser.record problem token) := by
  rw [Parser.record_eq_step, Parser.record_eq_step]
  rfl

theorem glued_map (stop : Nat) (tokens : List Token) :
    Span.glued stop (tokens.map respelling.token) = Span.glued stop tokens := by
  induction tokens generalizing stop with
  | nil => rfl
  | cons token rest ih => simp only [List.map_cons, Span.glued, token_kind, token_stop, ih]; rfl

theorem innerLayers_map (tokens : List Token) :
    Grammar.innerLayers (tokens.map respelling.token) = Grammar.innerLayers tokens := by
  match tokens with
  | [] => rfl
  | [_] => rfl
  | point :: name :: rest =>
    have further := innerLayers_map rest
    simp only [List.map_cons, Grammar.innerLayers, token_kind, token_stop, further]
    rfl

end Stretches

section Texts

theorem map_plain {bytes : Bytes} (plain : bytes.all (fun byte => !Byte.isLetter byte) = true) :
    bytes.map respelling.byte = bytes := by
  have same : ∀ byte ∈ bytes, respelling.byte byte = id byte := fun byte member =>
    byte_plain (by simpa using List.all_eq_true.1 plain byte member)
  rw [List.map_congr_left same, List.map_id]

theorem literals_map (tokens : List Token) :
    Grammar.literals (tokens.map respelling.token) =
      (Grammar.literals tokens).map respelling.byte := by
  unfold Grammar.literals
  rw [List.flatMap_map, List.map_flatMap]
  rfl

theorem kept_map (tokens : List Token) :
    Verbatim.kept (tokens.map respelling.token) =
      (Verbatim.kept tokens).map respelling.token := by
  unfold Verbatim.kept
  rw [List.filter_map]
  rfl

theorem gap_map (left right : Token) :
    Verbatim.gap (respelling.token left) (respelling.token right) =
      (Verbatim.gap left right).map respelling.byte := by
  have blank : respelling.byte Byte.space = Byte.space := byte_plain rfl
  have place : (respelling.token right).start = right.start := rfl
  unfold Verbatim.gap
  rw [token_stop, place]
  split
  · rfl
  · rw [List.map_singleton, blank]

theorem join_map (tokens : List Token) :
    Verbatim.join (tokens.map respelling.token) =
      (Verbatim.join tokens).map respelling.byte := by
  fun_induction Verbatim.join tokens with
  | case1 => rfl
  | case2 token => rfl
  | case3 left right rest ih =>
    rw [List.map_cons] at ih
    rw [List.map_cons, List.map_cons, Verbatim.join, ih, gap_map, List.map_append,
      List.map_append]
    rfl

theorem verbatim_map (tokens : List Token) :
    verbatim (tokens.map respelling.token) = (verbatim tokens).map respelling.byte := by
  unfold verbatim
  rw [kept_map, join_map]

theorem dropLast_map_byte {plain : UInt8} (noLetter : Byte.isLetter plain = false)
    (bytes : Bytes) :
    (if (bytes.map respelling.byte).getLast? = some plain then
        (bytes.map respelling.byte).dropLast
      else bytes.map respelling.byte) =
      (if bytes.getLast? = some plain then bytes.dropLast else bytes).map respelling.byte := by
  simp only [getLast?_eq_iff noLetter, ← List.map_dropLast]
  split <;> rfl

/-- A string is respelled between its quotes. -/
theorem ofLiteral_map {literal : Bytes} (quoted : literal.head?.any Byte.isQuote = true) :
    StringLiteral.ofLiteral (literal.map respelling.byte) =
      (StringLiteral.ofLiteral literal).respell respelling.byte := by
  cases literal with
  | nil => rfl
  | cons opening rest =>
    -- The closing quote is told by the opening one, and both stay as they are.
    have noLetter := noLetter_of_isQuote (show Byte.isQuote opening = true from quoted)
    rw [List.map_cons, byte_plain noLetter]
    unfold StringLiteral.ofLiteral StringLiteral.respell
    dsimp only
    rw [dropLast_map_byte noLetter]

theorem content_map {literal : Bytes} (quoted : literal.head?.any Byte.isQuote = true) :
    (StringLiteral.ofLiteral (literal.map respelling.byte)).content =
      (StringLiteral.ofLiteral literal).content.map respelling.byte := by
  rw [ofLiteral_map quoted]
  rfl

theorem isTrimmed_byte (byte : UInt8) :
    Byte.isTrimmed (respelling.byte byte) = Byte.isTrimmed byte :=
  look_byte (Byte.caseless_of_all (by decide +kernel)) byte

theorem trim_map (bytes : Bytes) :
    Bytes.trim (bytes.map respelling.byte) = (Bytes.trim bytes).map respelling.byte := by
  unfold Bytes.trim
  rw [dropWhile_map_byte isTrimmed_byte, ← List.map_reverse, dropWhile_map_byte isTrimmed_byte,
    ← List.map_reverse]

theorem uriContent_map (inner : Bytes) :
    Value.uriContent (inner.map respelling.byte) =
      (Value.uriContent inner).respell respelling.byte := by
  unfold Value.uriContent
  rw [head?_any_map isQuote_byte]
  split
  next quoted => rw [ofLiteral_map quoted, Value.respell]
  next => rw [Value.respell]

theorem ofUri_map (literal : Bytes) :
    Value.ofUri (literal.map respelling.byte) = (Value.ofUri literal).respell respelling.byte := by
  have opening (rest : Bytes) :
      (if (rest.map respelling.byte).head? = some Byte.openParen then
          (rest.map respelling.byte).tail
        else rest.map respelling.byte) =
        (if rest.head? = some Byte.openParen then rest.tail else rest).map respelling.byte := by
    simp (disch := decide) only [head?_eq_iff, ← List.map_tail]
    split <;> rfl
  unfold Value.ofUri
  simp only [← List.map_take, ← List.map_drop, opening,
    dropLast_map_byte (show Byte.isLetter Byte.closeParen = false from rfl), trim_map,
    uriContent_map, Value.respell, Value.respellAll]

end Texts

end Respelling

end CssSyntax

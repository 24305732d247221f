import CssSyntax.Proofs.Relocation.Compose
import CssSyntax.Proofs.Token.Delimited

/-! A line feed between two sources. A token is the same with a line feed behind it as on its own,
whatever stood behind it, so sources that are put together with a line feed keep their tokens, and
the literals of a source give the same tokens on lines of their own. -/

namespace CssSyntax

theorem Byte.not_isWhiteSpace_of_dropWhile {source rest : Bytes} {first : UInt8}
    (split : source.dropWhile isWhiteSpace = first :: rest) : isWhiteSpace first = false := by
  have refused := List.head?_dropWhile_not isWhiteSpace source
  rwa [split] at refused

namespace Cut

variable {source : Bytes} {cut : Cut}

/-- A token is cut off with the first byte that is no white space. -/
theorem of_found (found : Cut.ofBytes? source = some cut) :
    ∃ first rest, source.dropWhile Byte.isWhiteSpace = first :: rest ∧
      cut.kind = (Lexeme.ofFirst first rest).kind ∧
      cut.literal = (Lexeme.ofFirst first rest).literal first rest ∧
      cut.rest = rest.drop (Lexeme.ofFirst first rest).extra := by
  unfold Cut.ofBytes? at found
  split at found
  · exact absurd found.symm (Option.some_ne_none cut)
  · next first rest split =>
    obtain rfl := Option.some.inj found
    exact ⟨first, rest, split, rfl, rfl, rfl⟩

/-- The bytes of a token are a source of one token. -/
theorem alone (found : Cut.ofBytes? source = some cut) :
    Cut.ofBytes? cut.literal = some ⟨[], cut.kind, cut.literal, []⟩ := by
  obtain ⟨first, rest, split, kind, literal, _⟩ := of_found found
  have visible := Byte.not_isWhiteSpace_of_dropWhile split
  have same := (Lexeme.ofFirst_delimited first).alone rest
  rw [literal, kind]
  unfold Cut.ofBytes? Lexeme.literal
  rw [List.dropWhile_cons, List.takeWhile_cons, visible]
  dsimp only [Bool.false_eq_true, if_false]
  rw [if_neg Bool.false_ne_true, if_neg Bool.false_ne_true]
  dsimp only
  rw [same, List.take_take, Nat.min_self, List.drop_take, Nat.sub_self, List.take_zero]

/-- A token that was not cut short stays as it is with a line feed behind the source. -/
theorem stays_newline (more : Bytes) (found : Cut.ofBytes? source = some cut)
    (finished : ¬cut.kind.Unfinished cut.literal) :
    Cut.Stays source cut (Byte.newline :: more) := by
  obtain ⟨first, rest, split, kind, literal, _⟩ := of_found found
  rw [kind, literal] at finished
  have delimited := Lexeme.ofFirst_delimited first
  exact stays_of_lexeme split found ⟨delimited.newline rest more finished, delimited.within rest⟩

/-- Nothing is left behind a token that was cut short. -/
theorem rest_of_unfinished (found : Cut.ofBytes? source = some cut)
    (unfinished : cut.kind.Unfinished cut.literal) : cut.rest = [] := by
  obtain ⟨first, rest, _, kind, literal, left⟩ := of_found found
  rw [kind, literal] at unfinished
  rw [left, (Lexeme.ofFirst_delimited first).whole rest unfinished, List.drop_length]

end Cut

/-- A line feed at the front of a source only moves its tokens. -/
theorem tokensFrom_newline_cons (position : Position) (source : Bytes) :
    tokensFrom position (Byte.newline :: source) =
      tokensFrom (position.next Byte.newline) source := by
  have blank : ∀ byte ∈ [Byte.newline], Byte.isWhiteSpace byte = true :=
    List.forall_mem_singleton.2 rfl
  exact tokensFrom_blank position source blank

/-- Where the last token of a source was not cut short, a source on the next line has its own
tokens. -/
theorem tokensFrom_newline (position : Position) (source more : Bytes)
    (finished : ∀ last ∈ (tokensFrom position source).dropLast.getLast?, ¬last.Unfinished) :
    tokensFrom position (source ++ Byte.newline :: more) =
      (tokensFrom position source).dropLast ++
        tokensFrom ((position.after source).next Byte.newline) more := by
  fun_induction tokensFrom position source with
  | case1 position source none =>
    rw [tokensFrom_blank position _ (Cut.source_blank none), tokensFrom_newline_cons]
    rfl
  | case2 position source cut found start ih =>
    have whole := Cut.ofBytes?_append found
    have some := tokensFrom_ne_nil (start.after cut.literal) cut.rest
    rw [List.dropLast_cons_of_ne_nil some] at finished ⊢
    have stays : Cut.Stays source cut (Byte.newline :: more) := by
      refine Cut.stays_newline more found fun unfinished => ?_
      rw [Cut.rest_of_unfinished found unfinished, tokensFrom_nil] at finished
      exact finished _ rfl unfinished
    have later := ih fun last member => finished last (by rw [List.getLast?_cons, member]; rfl)
    have place : (start.after cut.literal).after cut.rest = position.after source := by
      rw [← whole, Position.after_append, Position.after_append]
    rw [tokensFrom_cut stays]
    dsimp only
    rw [later, place]
    rfl

namespace Position

/-- The place in a source whose first byte is on the line after `before`. -/
def below (position : Position) (before : Bytes) : Position :=
  ⟨position.line + (before.count Byte.newline + 1), position.column,
    position.offset + (before.length + 1)⟩

theorem line_after (position : Position) (bytes : Bytes) :
    (position.after bytes).line = position.line + bytes.count Byte.newline := by
  induction bytes generalizing position with
  | nil => rfl
  | cons byte rest ih =>
    have further := ih (position.next byte)
    change ((position.next byte).after rest).line = _
    rw [further, List.count_cons]
    unfold next
    split
    next is => simp [is]; omega
    next other => simp [other]

theorem Counted.movedTo_line {position : Position} (counted : position.Counted) (before : Bytes) :
    position.movedTo ((start.after before).next Byte.newline) = position.below before := by
  obtain ⟨line, column⟩ := counted
  have lines := line_after start before
  have offset := offset_after start before
  have feed : (start.after before).next Byte.newline =
      ⟨(start.after before).line + 1, 1, (start.after before).offset + 1⟩ := if_pos rfl
  rw [feed]
  unfold movedTo below
  dsimp only [start] at lines offset ⊢
  rw [lines, offset, mk.injEq]
  refine ⟨by omega, ?_, by omega⟩
  split <;> omega

end Position

/-- The token in a source whose first byte is on the line after `before`. -/
def Token.below (token : Token) (before : Bytes) : Token :=
  { token with start := token.start.below before }

theorem tokensFrom_counted {position : Position} (counted : position.Counted) (source : Bytes) :
    ∀ token ∈ tokensFrom position source, token.start.Counted := by
  fun_induction tokensFrom position source with
  | case1 position source none =>
    intro token member
    obtain rfl := List.mem_singleton.1 member
    exact counted.after source
  | case2 position source cut found start ih =>
    intro token member
    rcases List.mem_cons.1 member with rfl | later
    · exact counted.after cut.gap
    · exact ih ((counted.after cut.gap).after cut.literal) token later

/-- A line feed is a boundary that no token goes past. Where the last token of a source was not cut
short, a source on the next line has the tokens that it has on its own, as many lines and bytes
further down and in the same columns. -/
theorem tokenize_newline (before source : Bytes)
    (finished : ∀ last ∈ (tokenize before).dropLast.getLast?, ¬last.Unfinished) :
    tokenize (before ++ Byte.newline :: source) =
      (tokenize before).dropLast ++ (tokenize source).map fun token => token.below before := by
  have moved := tokensFrom_movedTo ((Position.start.after before).next Byte.newline)
    Position.start_counted source
  rw [Position.start_movedTo] at moved
  unfold tokenize
  rw [tokensFrom_newline .start before source finished, moved]
  refine congrArg _ (List.map_congr_left fun token member => ?_)
  have counted := tokensFrom_counted Position.start_counted source token member
  exact congrArg (Token.mk _ _) (counted.movedTo_line before)

/-- A name that would open a url, were it not for the line feed. -/
theorem tokenize_newline_url :
    (∀ last ∈ (tokenize (utf8 "a\n url")).dropLast.getLast?, ¬last.Unfinished) ∧
      tokenize (utf8 "a\n url" ++ Byte.newline :: utf8 "(b)") =
        (tokenize (utf8 "a\n url")).dropLast ++
          (tokenize (utf8 "(b)")).map fun token => token.below (utf8 "a\n url") := by
  have finished : ∀ last ∈ (tokenize (utf8 "a\n url")).dropLast.getLast?, ¬last.Unfinished := by
    intro last member
    have is : (tokenize (utf8 "a\n url")).dropLast.getLast? =
        some ⟨.ident, utf8 "url", ⟨2, 2, 3⟩⟩ := by
      decide +kernel
    obtain rfl := Option.some.inj (is.symm.trans member)
    exact not_false
  exact ⟨finished, tokenize_newline _ _ finished⟩

section Literals

/-- The bytes of the tokens of a source, less the end of the input. -/
def literalsOf (tokens : List Token) : List Bytes := tokens.dropLast.map (·.literal)

/-- One source with each of the texts on a line of its own. -/
def onLines (texts : List Bytes) : Bytes := [Byte.newline].intercalate texts

theorem onLines_cons (text : Bytes) (texts : List Bytes) (some : texts ≠ []) :
    onLines (text :: texts) = text ++ Byte.newline :: onLines texts := by
  obtain ⟨next, rest, rfl⟩ := List.exists_cons_of_ne_nil some
  simp [onLines, List.intercalate_cons_cons]

theorem tokensFrom_onLines (place position : Position) (source : Bytes) :
    (tokensFrom place (onLines (literalsOf (tokensFrom position source)))).map Token.content =
      (tokensFrom position source).map Token.content := by
  fun_induction tokensFrom position source generalizing place with
  | case1 position source none =>
    change (tokensFrom place []).map Token.content = _
    rw [tokensFrom_nil]
    rfl
  | case2 position source cut found start ih =>
    have some := tokensFrom_ne_nil (start.after cut.literal) cut.rest
    have alone := Cut.alone found
    unfold literalsOf at ih ⊢
    rw [List.dropLast_cons_of_ne_nil some, List.map_cons, List.map_cons]
    cases later : (tokensFrom (start.after cut.literal) cut.rest).dropLast with
    | nil =>
      rw [later] at ih
      have last : onLines [cut.literal] = cut.literal := by simp [onLines]
      rw [List.map_nil, last, tokensFrom_cut alone, List.map_cons, ← ih]
      rfl
    | cons token rest =>
      -- Something is left of the source, so the token was not cut short.
      have finished : ¬cut.kind.Unfinished cut.literal := by
        intro unfinished
        rw [Cut.rest_of_unfinished found unfinished, tokensFrom_nil] at later
        exact absurd later (List.cons_ne_nil token rest).symm
      rw [later] at ih
      have below := onLines_cons cut.literal ((token :: rest).map (·.literal))
        (List.cons_ne_nil _ _)
      rw [below, tokensFrom_cut (Cut.stays_newline _ alone finished), List.map_cons]
      dsimp only [List.nil_append]
      rw [tokensFrom_newline_cons, ih]
      rfl

theorem tokensFrom_alone {position : Position} {source : Bytes} :
    ∀ token ∈ (tokensFrom position source).dropLast,
      Cut.ofBytes? token.literal = some ⟨[], token.kind, token.literal, []⟩ := by
  fun_induction tokensFrom position source with
  | case1 position source none => exact List.forall_mem_nil _
  | case2 position source cut found start ih =>
    rw [List.dropLast_cons_of_ne_nil (tokensFrom_ne_nil _ _)]
    intro token member
    rcases List.mem_cons.1 member with rfl | later
    · exact Cut.alone found
    · exact ih token later

/-- Literals give themselves again. On lines of their own the literals of a source have the same
tokens, and each of them alone has its own token and no other. -/
theorem tokenize_literals (source : Bytes) :
    (tokenize (onLines (literalsOf (tokenize source)))).map Token.content =
        (tokenize source).map Token.content ∧
      ∀ token ∈ (tokenize source).dropLast, tokenize token.literal =
        [⟨token.kind, token.literal, .start⟩,
          Token.endOfInput (Position.start.after token.literal)] := by
  refine ⟨tokensFrom_onLines .start .start source, fun token member => ?_⟩
  unfold tokenize
  rw [tokensFrom_cut (tokensFrom_alone token member), tokensFrom_nil]
  rfl

/-- A url with nothing in it, a color, an escape with its space and a sign before a name. -/
theorem tokenize_literals_escape :
    ∃ source token, token ∈ (tokenize source).dropLast ∧
      (tokenize (onLines (literalsOf (tokenize source)))).map Token.content =
        (tokenize source).map Token.content ∧
      tokenize token.literal =
        [⟨.ident, utf8 "\\41 b", .start⟩, Token.endOfInput ⟨1, 6, 5⟩] := by
  let source := utf8 "url( )#abc+\\41 b -"
  have member : ⟨.ident, utf8 "\\41 b", ⟨1, 12, 11⟩⟩ ∈ (tokenize source).dropLast := by
    decide +kernel
  have all := tokenize_literals source
  exact ⟨source, _, member, all.1, all.2 _ member⟩

end Literals

end CssSyntax

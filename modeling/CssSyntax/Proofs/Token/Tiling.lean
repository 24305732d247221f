import CssSyntax.Token.Stream
import Mathlib.Data.List.Chain
import Mathlib.Data.List.TakeWhile

/-! The tokens of a source tile it: white space, a literal, white space, a literal, up to the end
of the input. What tiles a source loses none of its bytes, and no byte is part of two tokens. -/

namespace CssSyntax

theorem Kind.ofPunctuation?_ne_eof (byte : UInt8) (kind : Kind)
    (found : Kind.ofPunctuation? byte = some kind) : kind ≠ .eof := by
  rintro rfl
  unfold Kind.ofPunctuation? at found
  split at found <;> simp at found

namespace Lexeme

theorem ofHash_kind_ne_eof (rest : Bytes) : (ofHash rest).kind ≠ .eof := by
  unfold ofHash
  dsimp only
  split <;> simp

theorem ofHyphen_kind_ne_eof (rest : Bytes) : (ofHyphen rest).kind ≠ .eof := by
  unfold ofHyphen
  repeat' split
  all_goals simp

theorem ofWord_kind_ne_eof (first : UInt8) (rest : Bytes) : (ofWord first rest).kind ≠ .eof := by
  unfold ofWord
  dsimp only
  split <;> simp

/-- The end of the input is never read off a byte, a NUL included. -/
theorem ofFirst_kind_ne_eof (first : UInt8) (rest : Bytes) : (ofFirst first rest).kind ≠ .eof := by
  unfold ofFirst
  split
  next kind found => exact Kind.ofPunctuation?_ne_eof first kind found
  next =>
    repeat' split
    · unfold ofCaret; split <;> simp
    · unfold ofColon; split <;> simp
    · exact ofHash_kind_ne_eof rest
    · exact ofHyphen_kind_ne_eof rest
    · simp
    · unfold ofSlash; split <;> simp
    · simp
    · exact ofWord_kind_ne_eof first rest
    · simp
    · simp

end Lexeme

namespace Cut

variable {source : Bytes} {cut : Cut}

theorem kind_ne_eof (found : Cut.ofBytes? source = some cut) : cut.kind ≠ .eof := by
  unfold Cut.ofBytes? at found
  split at found
  · simp at found
  · next first rest _ =>
    obtain rfl := Option.some.inj found
    exact Lexeme.ofFirst_kind_ne_eof first rest

theorem gap_blank (found : Cut.ofBytes? source = some cut) :
    ∀ byte ∈ cut.gap, Byte.isWhiteSpace byte := by
  unfold Cut.ofBytes? at found
  split at found
  · simp at found
  · obtain rfl := Option.some.inj found
    exact fun byte member => List.mem_takeWhile_imp member

theorem source_blank (none : Cut.ofBytes? source = none) :
    ∀ byte ∈ source, Byte.isWhiteSpace byte := by
  unfold Cut.ofBytes? at none
  split at none
  · next empty => exact List.dropWhile_eq_nil_iff.1 empty
  · simp at none

end Cut

/-- `tokens` tile `source`, whose first byte stands at `position`. -/
inductive Tiles : Position → Bytes → List Token → Prop where
  | finish {position : Position} {gap : Bytes} (blank : ∀ byte ∈ gap, Byte.isWhiteSpace byte) :
      Tiles position gap [Token.endOfInput (position.after gap)]
  | token {position : Position} {gap literal rest : Bytes} {kind : Kind} {tokens : List Token}
      (blank : ∀ byte ∈ gap, Byte.isWhiteSpace byte) (written : literal ≠ []) (real : kind ≠ .eof)
      (tail : Tiles ((position.after gap).after literal) rest tokens) :
      Tiles position (gap ++ (literal ++ rest)) (⟨kind, literal, position.after gap⟩ :: tokens)

theorem tokensFrom_tiles (position : Position) (source : Bytes) :
    Tiles position source (tokensFrom position source) := by
  fun_induction tokensFrom position source with
  | case1 position source none => exact .finish (Cut.source_blank none)
  | case2 position source cut found start ih =>
    have whole := Cut.ofBytes?_append found
    rw [List.append_assoc] at whole
    have tiles := Tiles.token (Cut.gap_blank found) (Cut.literal_ne_nil found)
      (Cut.kind_ne_eof found) ih
    rwa [whole] at tiles

theorem tokenize_tiles (source : Bytes) : Tiles .start source (tokenize source) :=
  tokensFrom_tiles .start source

/-- From `start` to `stop` the source holds white space only. -/
def Blank (source : Bytes) (start stop : Nat) : Prop :=
  start ≤ stop ∧ ∀ byte ∈ source.extract start stop, Byte.isWhiteSpace byte

theorem blank_of_gap (before gap rest : Bytes)
    (blank : ∀ byte ∈ gap, Byte.isWhiteSpace byte) :
    Blank (before ++ (gap ++ rest)) before.length (before.length + gap.length) := by
  refine ⟨Nat.le_add_right _ _, ?_⟩
  rw [List.extract_eq_take_drop, List.drop_left, Nat.add_sub_cancel_left, List.take_left]
  exact blank

/-- What it means that the tokens of a source lose none of it. -/
structure Lossless (source : Bytes) (tokens : List Token) : Prop where
  /-- Offsets strictly increase, that of the end of the input included. -/
  increasing : tokens.Pairwise fun left right => left.start.offset < right.start.offset
  /-- A literal is what the source holds between the two offsets of its token. -/
  literals : ∀ token ∈ tokens, token.kind ≠ .eof →
    token.literal ≠ [] ∧ token.stop ≤ source.length ∧
      source.extract token.start.offset token.stop = token.literal
  /-- White space alone stands before the first token. -/
  leading : ∀ first ∈ tokens.head?, Blank source 0 first.start.offset
  /-- White space alone stands between two tokens, and before the end of the input. -/
  between : tokens.IsChain fun left right => Blank source left.stop right.start.offset
  /-- The end of the input is the last token and no other, without bytes, at the end. -/
  finish : ∃ front position, tokens = front ++ [Token.endOfInput position] ∧
    position.offset = source.length ∧ ∀ token ∈ front, token.kind ≠ .eof
  /-- The source is the gaps and the literals in turn. -/
  pieces : ∃ gaps : List Bytes, gaps.length = tokens.length ∧
    (∀ gap ∈ gaps, ∀ byte ∈ gap, Byte.isWhiteSpace byte) ∧
      source = (List.zipWith (fun gap token => gap ++ token.literal) gaps tokens).flatten

namespace Tiles

variable {position : Position} {rest : Bytes} {tokens : List Token}

theorem offset_le (tiles : Tiles position rest tokens) :
    ∀ token ∈ tokens, position.offset ≤ token.start.offset := by
  induction tiles with
  | finish => simp [Token.endOfInput, Position.offset_after]
  | token blank written real tail ih =>
    intro token member
    rcases List.mem_cons.1 member with rfl | later
    · simp [Position.offset_after]
    · have bound := ih token later
      simp only [Position.offset_after] at bound
      omega

theorem increasing (tiles : Tiles position rest tokens) :
    tokens.Pairwise fun left right => left.start.offset < right.start.offset := by
  induction tiles with
  | finish => exact List.pairwise_singleton _ _
  | token blank written real tail ih =>
    refine List.pairwise_cons.2 ⟨fun later member => ?_, ih⟩
    have bound := tail.offset_le later member
    have some := List.length_pos_iff.2 written
    simp only [Position.offset_after] at bound ⊢
    omega

theorem finish_last (tiles : Tiles position rest tokens) :
    ∃ front last, tokens = front ++ [Token.endOfInput last] ∧
      last.offset = position.offset + rest.length ∧ ∀ token ∈ front, token.kind ≠ .eof := by
  induction tiles with
  | @finish position gap =>
    exact ⟨[], position.after gap, rfl, Position.offset_after .., by simp⟩
  | @token position gap literal rest kind tokens blank written real tail ih =>
    obtain ⟨front, last, split, offset, others⟩ := ih
    refine ⟨⟨kind, literal, position.after gap⟩ :: front, last, by simp [split], ?_, ?_⟩
    · simp only [offset, Position.offset_after, List.length_append]
      omega
    · intro token member
      rcases List.mem_cons.1 member with rfl | later
      · exact real
      · exact others token later

theorem pieces (tiles : Tiles position rest tokens) :
    ∃ gaps : List Bytes, gaps.length = tokens.length ∧
      (∀ gap ∈ gaps, ∀ byte ∈ gap, Byte.isWhiteSpace byte) ∧
        rest = (List.zipWith (fun gap token => gap ++ token.literal) gaps tokens).flatten := by
  induction tiles with
  | @finish position gap blank =>
    exact ⟨[gap], by simp, by simpa using blank, by simp [Token.endOfInput]⟩
  | @token position gap literal rest kind tokens blank written real tail ih =>
    obtain ⟨gaps, same, blanks, whole⟩ := ih
    refine ⟨gap :: gaps, by simp [same], ?_, by simp [← whole]⟩
    intro other member
    rcases List.mem_cons.1 member with rfl | later
    · exact blank
    · exact blanks other later

/-- The facts below are about a tiled part of a source, after the bytes in `before`. -/
theorem leading (tiles : Tiles position rest tokens) (before : Bytes)
    (place : position.offset = before.length) :
    ∀ first ∈ tokens.head?, Blank (before ++ rest) before.length first.start.offset := by
  cases tiles with
  | finish blank =>
    intro first head
    obtain rfl : Token.endOfInput _ = first := by simpa using head
    have gap := blank_of_gap before rest [] blank
    simpa [Token.endOfInput, Position.offset_after, place] using gap
  | @token position gap literal rest _ _ blank _ _ _ =>
    intro first head
    obtain rfl := Option.some.inj head
    have gap := blank_of_gap before gap (literal ++ rest) blank
    simpa [Position.offset_after, place] using gap

theorem between (tiles : Tiles position rest tokens) (before : Bytes)
    (place : position.offset = before.length) :
    tokens.IsChain fun left right => Blank (before ++ rest) left.stop right.start.offset := by
  induction tiles generalizing before with
  | finish => exact List.isChain_singleton _
  | @token position gap literal rest kind tokens blank written real tail ih =>
    have inner : ((position.after gap).after literal).offset =
        (before ++ gap ++ literal).length := by
      simp [Position.offset_after, place]
      omega
    have whole : before ++ (gap ++ (literal ++ rest)) = before ++ gap ++ literal ++ rest := by
      simp
    have stop : (⟨kind, literal, position.after gap⟩ : Token).stop =
        (before ++ gap ++ literal).length := by
      simp [Token.stop, Position.offset_after, place]
      omega
    rw [List.isChain_cons, whole, stop]
    exact ⟨fun next head => tail.leading _ inner next head, ih _ inner⟩

theorem literals (tiles : Tiles position rest tokens) (before : Bytes)
    (place : position.offset = before.length) :
    ∀ token ∈ tokens, token.kind ≠ .eof →
      token.literal ≠ [] ∧ token.stop ≤ (before ++ rest).length ∧
        (before ++ rest).extract token.start.offset token.stop = token.literal := by
  induction tiles generalizing before with
  | finish => simp [Token.endOfInput]
  | @token position gap literal rest kind tokens blank written real tail ih =>
    intro token member notEnd
    have whole : before ++ (gap ++ (literal ++ rest)) = before ++ gap ++ (literal ++ rest) := by
      simp
    have start : (position.after gap).offset = (before ++ gap).length := by
      simp [Position.offset_after, place]
    rcases List.mem_cons.1 member with rfl | later
    · refine ⟨written, ?_, ?_⟩
      · simp only [Token.stop, start, List.length_append]
        omega
      rw [whole, Token.stop, start, List.extract_eq_take_drop, List.drop_left,
        Nat.add_sub_cancel_left, List.take_left]
    · have inner : ((position.after gap).after literal).offset =
          (before ++ gap ++ literal).length := by
        simp [Position.offset_after, place]
        omega
      have found := ih _ inner token later notEnd
      rwa [whole, ← List.append_assoc]

theorem lossless (tiles : Tiles .start rest tokens) : Lossless rest tokens where
  increasing := tiles.increasing
  literals := tiles.literals [] rfl
  leading := tiles.leading [] rfl
  between := tiles.between [] rfl
  finish := by simpa [Position.start] using tiles.finish_last
  pieces := tiles.pieces

end Tiles

/-- The tokens of a source lose none of its bytes and repeat none. -/
theorem tokenize_lossless (source : Bytes) : Lossless source (tokenize source) :=
  (tokenize_tiles source).lossless

end CssSyntax

import CssSyntax.Proofs.Token.Tiling
import CssSyntax.Proofs.Verbatim.Rejoin

/-! Joining tokens one by one. A joiner keeps the text so far and the end of the last token that it
took. For tokens that follow each other in a source its text is what the source holds from the first
of them to the last, with one space for each stretch of white space and comments in between. -/

namespace CssSyntax

/-- The text so far, and where the last token that was taken ends. -/
structure Joiner where
  text : Bytes
  lastStop : Option Nat

namespace Joiner

def fresh : Joiner := ⟨[], none⟩

/-- Comments are passed over, so the place where the last token ends stays as it is. -/
def push (joiner : Joiner) (token : Token) : Joiner :=
  if token.kind = .comment then joiner
  else
    let space := if joiner.lastStop.any (· != token.start.offset) then [Byte.space] else []
    ⟨joiner.text ++ space ++ token.literal, some token.stop⟩

def join (tokens : List Token) : Bytes := (tokens.foldl push fresh).text

variable {token : Token}

theorem push_comment (joiner : Joiner) (is : token.kind = .comment) : joiner.push token = joiner :=
  if_pos is

theorem push_behind (text : Bytes) (stop : Nat) (plain : token.kind ≠ .comment) :
    push ⟨text, some stop⟩ token =
      ⟨text ++ ((if stop = token.start.offset then [] else [Byte.space]) ++ token.literal),
        some token.stop⟩ := by
  unfold push
  rw [if_neg plain]
  by_cases touch : stop = token.start.offset <;> simp [touch]

/-- A joiner that has taken a token goes on with the text behind that token. -/
theorem foldl_push (text : Bytes) (stop : Nat) (tokens : List Token) :
    (tokens.foldl push ⟨text, some stop⟩).text = text ++ Verbatim.behind stop tokens := by
  induction tokens generalizing text stop with
  | nil => exact (List.append_nil text).symm
  | cons token rest ih =>
    rw [List.foldl_cons]
    by_cases is : token.kind = .comment
    · rw [push_comment _ is, ih, Verbatim.behind_comment stop is]
    · rw [push_behind text stop is, ih, Verbatim.behind_cons stop is]
      simp

theorem join_eq (tokens : List Token) : join tokens = verbatim tokens := by
  unfold join
  induction tokens with
  | nil => rfl
  | cons token rest ih =>
    rw [List.foldl_cons]
    by_cases is : token.kind = .comment
    · rw [push_comment _ is, ih]
      unfold verbatim
      rw [Verbatim.kept_cons_comment is]
    · have first : fresh.push token = ⟨token.literal, some token.stop⟩ := by
        unfold push
        rw [if_neg is]
        rfl
      rw [first, foldl_push]
      exact (Verbatim.join_kept_cons is).symm

end Joiner

/-- White space with these comments in it. -/
inductive Stretch : List Token → Bytes → Prop
  | blank {gap : Bytes} (blank : ∀ byte ∈ gap, Byte.isWhiteSpace byte) : Stretch [] gap
  | comment {gap rest : Bytes} {token : Token} {tokens : List Token}
      (blank : ∀ byte ∈ gap, Byte.isWhiteSpace byte) (is : token.kind = .comment)
      (tail : Stretch tokens rest) : Stretch (token :: tokens) (gap ++ (token.literal ++ rest))

/-- One space for a stretch, and nothing where tokens touch. -/
def squeezed (gap : Bytes) : Bytes := if gap = [] then [] else [Byte.space]

/-- The tokens of a run from the first that is no comment on, what the source holds from there to
the last that is none, and that text with its stretches squeezed. -/
inductive Squeezes : List Token → Bytes → Bytes → Prop
  | last {token : Token} {comments : List Token} (plain : token.kind ≠ .comment)
      (behind : ∀ comment ∈ comments, comment.kind = .comment) :
      Squeezes (token :: comments) token.literal token.literal
  | next {left right : Token} {comments rest : List Token} {gap slice text : Bytes}
      (plain : left.kind ≠ .comment) (stretch : Stretch comments gap)
      (tail : Squeezes (right :: rest) slice text) :
      Squeezes (left :: (comments ++ right :: rest)) (left.literal ++ (gap ++ slice))
        (left.literal ++ (squeezed gap ++ text))

/-- The tokens of a run before the first that is no comment, if there is one. -/
theorem comments_or_plain (run : List Token) :
    (∀ token ∈ run, token.kind = .comment) ∨
      ∃ comments first more, run = comments ++ first :: more ∧
        (∀ comment ∈ comments, comment.kind = .comment) ∧ first.kind ≠ .comment := by
  induction run with
  | nil => exact .inl (List.forall_mem_nil _)
  | cons token rest ih =>
    by_cases is : token.kind = .comment
    · rcases ih with all | ⟨comments, first, more, rfl, are, plain⟩
      · exact .inl (List.forall_mem_cons.2 ⟨is, all⟩)
      · exact .inr ⟨token :: comments, first, more, rfl, List.forall_mem_cons.2 ⟨is, are⟩, plain⟩
    · exact .inr ⟨[], token, rest, rfl, List.forall_mem_nil _, is⟩

namespace Verbatim

variable {comments : List Token}

theorem kept_comments (are : ∀ comment ∈ comments, comment.kind = .comment) :
    kept comments = [] :=
  List.filter_eq_nil_iff.2 fun comment member => by simp [are comment member]

theorem kept_comments_append (are : ∀ comment ∈ comments, comment.kind = .comment)
    (rest : List Token) : kept (comments ++ rest) = kept rest := by
  rw [kept_append, kept_comments are, List.nil_append]

theorem behind_comments_append (stop : Nat)
    (are : ∀ comment ∈ comments, comment.kind = .comment) (rest : List Token) :
    behind stop (comments ++ rest) = behind stop rest := by
  unfold behind
  rw [kept_comments_append are]

end Verbatim

namespace Tiles

open Verbatim

variable {position : Position} {source : Bytes} {tokens : List Token}

/-- Behind some of its tokens the rest tile the rest of a source. -/
theorem behind_front {front : List Token} (tiles : Tiles position source (front ++ tokens))
    (some : tokens ≠ []) :
    ∃ before rest, source = before ++ rest ∧ Tiles (position.after before) rest tokens := by
  induction front generalizing position source with
  | nil => exact ⟨[], source, rfl, tiles⟩
  | cons token front ih =>
    rw [List.cons_append] at tiles
    generalize whole : front ++ tokens = others at tiles
    cases tiles with
    | finish => exact absurd (List.append_eq_nil_iff.1 whole).2 some
    | @token _ gap literal behind kind _ blank written real tail =>
      obtain ⟨before, rest, rfl, further⟩ := ih (whole ▸ tail)
      refine ⟨gap ++ (literal ++ before), rest, by simp, ?_⟩
      rwa [Position.after_append, Position.after_append]

/-- Comments and the white space around them make a stretch before the token behind them. -/
theorem stretch {comments more : List Token} {first : Token}
    (tiles : Tiles position source (comments ++ first :: more))
    (are : ∀ comment ∈ comments, comment.kind = .comment) :
    ∃ gap rest, source = gap ++ (first.literal ++ rest) ∧ Stretch comments gap ∧
      first.start = position.after gap ∧
      (more ≠ [] → Tiles (first.start.after first.literal) rest more) := by
  induction comments generalizing position source with
  | nil =>
    cases tiles with
    | finish blank => exact ⟨source, [], (by simp [Token.endOfInput]), .blank blank, rfl, by simp⟩
    | token blank written real tail => exact ⟨_, _, rfl, .blank blank, rfl, fun _ => tail⟩
  | cons comment comments ih =>
    rw [List.cons_append] at tiles
    generalize whole : comments ++ first :: more = others at tiles
    cases tiles with
    | finish => exact absurd (List.append_eq_nil_iff.1 whole).2 (List.cons_ne_nil _ _)
    | @token _ gap literal behind kind _ blank written real tail =>
      obtain ⟨is, are⟩ := List.forall_mem_cons.1 are
      obtain ⟨inner, rest, rfl, stretch, start, further⟩ := ih (whole ▸ tail) are
      refine ⟨gap ++ (literal ++ inner), rest, by simp, .comment blank is stretch, ?_, further⟩
      rw [start, Position.after_append, Position.after_append]

/-- From a token on, the text behind it is what the source holds there with its stretches
squeezed. -/
theorem squeezes (run : List Token) {back : List Token} {first : Token} {rest : Bytes}
    (plain : first.kind ≠ .comment)
    (tiles : run ++ back ≠ [] → Tiles (first.start.after first.literal) rest (run ++ back)) :
    ∃ slice behind, first.literal ++ rest = slice ++ behind ∧
      Squeezes (first :: run) slice (first.literal ++ Verbatim.behind first.stop run) ∧
      ∀ last ∈ (kept (first :: run)).getLast?, first.start.offset + slice.length = last.stop := by
  rcases comments_or_plain run with all | ⟨comments, next, more, rfl, are, nextPlain⟩
  · have alone : kept (first :: run) = [first] := by rw [kept_cons plain, kept_comments all]
    have nothing : Verbatim.behind first.stop run = [] := by
      unfold Verbatim.behind
      rw [kept_comments all]
    rw [alone, nothing, List.append_nil]
    refine ⟨first.literal, rest, rfl, .last plain all, fun last is => ?_⟩
    obtain rfl := Option.some.inj is
    rfl
  · rw [List.append_assoc] at tiles
    obtain ⟨gap, further, rfl, stretch, start, onward⟩ := (tiles (by simp)).stretch are
    obtain ⟨slice, behind, split, inner, stops⟩ := squeezes more nextPlain onward
    have place : next.start.offset = first.stop + gap.length := by
      rw [start, Position.offset_after, Position.offset_after]
      rfl
    have text : Verbatim.behind first.stop (comments ++ next :: more) =
        squeezed gap ++ (next.literal ++ Verbatim.behind next.stop more) := by
      rw [behind_comments_append _ are, behind_cons _ nextPlain, place]
      unfold squeezed
      cases gap <;> simp
    refine ⟨first.literal ++ (gap ++ slice), behind, by simp [split], ?_, fun last is => ?_⟩
    · rw [text]
      exact .next plain stretch inner
    · rw [kept_cons plain, kept_comments_append are, kept_cons nextPlain,
        List.getLast?_cons_cons, ← kept_cons nextPlain] at is
      have stop := stops last is
      simp only [List.length_append, Token.stop] at stop place ⊢
      omega
termination_by run.length

end Tiles

/-- What a joiner makes of a run of tokens that follow each other in a source: the source from the
first of them to the last, comments at either end aside, in which each stretch of white space and
comments between two of them is one space, and nothing stands between two that touch. -/
theorem joined_run (source : Bytes) {run : List Token} (within : run <:+: tokenize source) :
    Joiner.join run = verbatim run ∧ (Verbatim.kept run = [] → Joiner.join run = []) ∧
      ∀ first ∈ (Verbatim.kept run).head?, ∀ last ∈ (Verbatim.kept run).getLast?,
        Squeezes (run.dropWhile fun token => token.kind == .comment)
          (source.extract first.start.offset last.stop) (Joiner.join run) := by
  refine ⟨Joiner.join_eq run, fun none => ?_, fun first head last final => ?_⟩
  · rw [Joiner.join_eq]
    unfold verbatim
    rw [none]
    rfl
  · obtain ⟨front, back, split⟩ := within
    rcases comments_or_plain run with all | ⟨comments, first', more, rfl, are, plain⟩
    · rw [Verbatim.kept_comments all] at head
      exact nomatch head
    · rw [Verbatim.kept_comments_append are, Verbatim.kept_cons plain] at head
      obtain rfl : first' = first := Option.some.inj head
      rw [Verbatim.kept_comments_append are] at final
      have tiles := tokenize_tiles source
      rw [← split, List.append_assoc, List.append_assoc, List.cons_append] at tiles
      obtain ⟨before, rest, rfl, inside⟩ := tiles.behind_front (by simp)
      obtain ⟨gap, further, rfl, -, start, onward⟩ := inside.stretch are
      obtain ⟨slice, behind, whole, squeezes, stops⟩ := Tiles.squeezes more plain onward
      have text : Joiner.join (comments ++ first' :: more) =
          first'.literal ++ Verbatim.behind first'.stop more := by
        rw [Joiner.join_eq]
        unfold verbatim
        rw [Verbatim.kept_comments_append are, Verbatim.join_kept_cons plain]
      have kept : (comments ++ first' :: more).dropWhile (fun token => token.kind == .comment) =
          first' :: more := by
        rw [List.dropWhile_append_of_pos fun comment member => by simp [are comment member],
          List.dropWhile_cons_of_neg (by simpa using plain)]
      have place : first'.start.offset = (before ++ gap).length := by
        rw [start, Position.offset_after, Position.offset_start_after, List.length_append]
      have extent : (before ++ (gap ++ (first'.literal ++ further))).extract first'.start.offset
          last.stop = slice := by
        rw [whole, ← stops last final, place, ← List.append_assoc, List.extract_eq_take_drop,
          List.drop_left, Nat.add_sub_cancel_left, List.take_left]
      rw [kept, extent, text]
      exact squeezes

/-- Between parentheses, with a comment in the middle and one at the end. -/
theorem joined_run_comments :
    ∃ run, run <:+: tokenize (utf8 "(a /* b */\tc:d/**/)") ∧
      Squeezes run (utf8 "a /* b */\tc:d") (utf8 "a c:d") := by
  let source := utf8 "(a /* b */\tc:d/**/)"
  let run := ((tokenize source).drop 1).take 6
  have within : run <:+: tokenize source :=
    (List.take_prefix 6 _).isInfix.trans (List.drop_suffix 1 _).isInfix
  let first : Token := ⟨.ident, utf8 "a", ⟨1, 2, 1⟩⟩
  let last : Token := ⟨.ident, utf8 "d", ⟨1, 14, 13⟩⟩
  have ends : (Verbatim.kept run).head? = some first ∧ (Verbatim.kept run).getLast? = some last := by
    decide +kernel
  have squeezes := (joined_run source within).2.2 first ends.1 last ends.2
  have parts : (run.dropWhile fun token => token.kind == .comment) = run ∧
      source.extract first.start.offset last.stop = utf8 "a /* b */\tc:d" ∧
        Joiner.join run = utf8 "a c:d" := by
    decide +kernel
  rw [parts.1, parts.2.1, parts.2.2] at squeezes
  exact ⟨run, within, squeezes⟩

end CssSyntax

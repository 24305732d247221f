import CssSyntax.Proofs.Token.Tiling

/-! How tokens are written. Punctuation has one spelling for each kind, a color starts with its `#`,
and no token is empty. -/

namespace CssSyntax

/-- The bytes that a kind of token is always written with, if there is only one way. -/
def Kind.spelling? : Kind → Option Bytes
  | semicolon => some (utf8 ";")
  | colon => some (utf8 ":")
  | doubleColon => some (utf8 "::")
  | comma => some (utf8 ",")
  | openParen => some (utf8 "(")
  | closeParen => some (utf8 ")")
  | openBrace => some (utf8 "\x7b")
  | closeBrace => some (utf8 "\x7d")
  | openBracket => some (utf8 "[")
  | closeBracket => some (utf8 "]")
  | equals => some (utf8 "=")
  | plus => some (utf8 "+")
  | minus => some (utf8 "-")
  | greater => some (utf8 ">")
  | tilde => some (utf8 "~")
  | pipe => some (utf8 "|")
  | percentage => some (utf8 "%")
  | dollar => some (utf8 "$")
  | exclamation => some (utf8 "!")
  | atSign => some (utf8 "@")
  | asterisk => some (utf8 "*")
  | dot => some (utf8 ".")
  | hash => some (utf8 "#")
  | divide => some (utf8 "/")
  | startsWith => some (utf8 "^=")
  | _ => none

theorem Kind.spelling?_ofPunctuation? (byte : UInt8) (kind : Kind)
    (found : Kind.ofPunctuation? byte = some kind) : kind.spelling? = some [byte] := by
  have all : ∀ code : Fin 256, ∀ kind ∈ Kind.ofPunctuation? (UInt8.ofFin code),
      kind.spelling? = some [UInt8.ofFin code] := by decide +kernel
  exact all byte.toFin kind found

/-- The kind and the bytes of a token, wherever it stands. -/
def Token.content (token : Token) : Kind × Bytes := (token.kind, token.literal)

/-- True of a token that is written the way of its kind. -/
structure Token.Spelled (token : Token) : Prop where
  written : token.literal ≠ []
  fixed : ∀ spelling ∈ token.kind.spelling?, token.literal = spelling
  color : token.kind = .color → token.literal.head? = some Byte.hash

namespace Lexeme

def literal (first : UInt8) (rest : Bytes) (lexeme : Lexeme) : Bytes :=
  first :: rest.take lexeme.extra

/-- True of a lexeme whose bytes are the spelling of its kind, if that has one. -/
def Fixed (first : UInt8) (rest : Bytes) (lexeme : Lexeme) : Prop :=
  ∀ spelling ∈ lexeme.kind.spelling?, lexeme.literal first rest = spelling

theorem fixed_of_free {first : UInt8} {rest : Bytes} {lexeme : Lexeme}
    (free : lexeme.kind.spelling? = none) : lexeme.Fixed first rest := by
  intro spelling member
  rw [free] at member
  exact absurd member (Option.not_mem_none spelling)

theorem fixed_of_single {first : UInt8} {rest : Bytes} {kind : Kind}
    (single : kind.spelling? = some [first]) : Fixed first rest ⟨kind, 0⟩ := by
  intro spelling member
  obtain rfl := Option.some.inj (single.symm.trans member)
  rfl

theorem ofCaret_fixed (rest : Bytes) : (ofCaret rest).Fixed 0x5e rest := by
  unfold ofCaret
  split
  next follows =>
    obtain ⟨tail, rfl⟩ := List.head?_eq_some_iff.1 follows
    exact fun _ member => Option.some.inj member
  next => exact fixed_of_free rfl

theorem ofColon_fixed (rest : Bytes) : (ofColon rest).Fixed 0x3a rest := by
  unfold ofColon
  split
  next follows =>
    obtain ⟨tail, rfl⟩ := List.head?_eq_some_iff.1 follows
    exact fun _ member => Option.some.inj member
  next => exact fixed_of_single rfl

theorem ofHash_fixed (rest : Bytes) : (ofHash rest).Fixed Byte.hash rest := by
  unfold ofHash
  dsimp only
  split
  next => exact fixed_of_free rfl
  next => exact fixed_of_single rfl

theorem ofHyphen_fixed (rest : Bytes) : (ofHyphen rest).Fixed Byte.hyphen rest := by
  unfold ofHyphen
  split
  next => exact fixed_of_single rfl
  next =>
    repeat' split
    · exact fixed_of_free rfl
    · exact fixed_of_free rfl
    · exact fixed_of_free rfl
    · exact fixed_of_single rfl

theorem ofSlash_fixed (rest : Bytes) : (ofSlash rest).Fixed Byte.slash rest := by
  unfold ofSlash
  split
  next => exact fixed_of_free rfl
  next => exact fixed_of_single rfl

theorem ofWord_fixed (first : UInt8) (rest : Bytes) : (ofWord first rest).Fixed first rest := by
  unfold ofWord
  dsimp only
  split
  next => exact fixed_of_free rfl
  next => exact fixed_of_free rfl

theorem ofFirst_fixed (first : UInt8) (rest : Bytes) : (ofFirst first rest).Fixed first rest := by
  unfold ofFirst
  split
  next kind found => exact fixed_of_single (Kind.spelling?_ofPunctuation? first kind found)
  next =>
    split
    next is => exact is ▸ ofCaret_fixed rest
    split
    next is => exact is ▸ ofColon_fixed rest
    split
    next is => exact is ▸ ofHash_fixed rest
    split
    next is => exact is ▸ ofHyphen_fixed rest
    split
    next => exact fixed_of_free rfl
    split
    next is => exact is ▸ ofSlash_fixed rest
    split
    next => exact fixed_of_free rfl
    split
    next => exact ofWord_fixed first rest
    split
    next => exact fixed_of_free rfl
    next => exact fixed_of_free rfl

/-- Only what starts with `#` can be a color. -/
theorem ofFirst_color (first : UInt8) (rest : Bytes)
    (color : (ofFirst first rest).kind = .color) : first = Byte.hash := by
  by_contra other
  have never : (ofFirst first rest).kind ≠ .color := by
    unfold ofFirst
    split
    next kind found =>
      rintro rfl
      have spelling := Kind.spelling?_ofPunctuation? first .color found
      exact absurd spelling.symm (Option.some_ne_none _)
    next =>
      rw [if_neg other]
      unfold ofCaret ofColon ofHyphen ofSlash ofWord
      dsimp only
      repeat' split
      all_goals simp
  exact never color

end Lexeme

theorem Cut.spelled {source : Bytes} {cut : Cut} (found : Cut.ofBytes? source = some cut)
    (start : Position) : Token.Spelled ⟨cut.kind, cut.literal, start⟩ := by
  unfold Cut.ofBytes? at found
  split at found
  · simp at found
  · next first rest _ =>
    obtain rfl := Option.some.inj found
    refine ⟨List.cons_ne_nil _ _, Lexeme.ofFirst_fixed first rest, fun color => ?_⟩
    exact congrArg some (Lexeme.ofFirst_color first rest color)

theorem tokensFrom_spelled (position : Position) (source : Bytes) :
    ∀ token ∈ tokensFrom position source, token.kind ≠ .eof → token.Spelled := by
  fun_induction tokensFrom position source with
  | case1 position source none => simp [Token.endOfInput]
  | case2 position source cut found start ih =>
    intro token member
    rcases List.mem_cons.1 member with rfl | later
    · exact fun _ => Cut.spelled found start
    · exact ih token later

/-- The tokens of a source are written the way of their kinds. -/
theorem tokenize_spelled (source : Bytes) :
    ∀ token ∈ tokenize source, token.kind ≠ .eof → token.Spelled :=
  tokensFrom_spelled .start source

end CssSyntax

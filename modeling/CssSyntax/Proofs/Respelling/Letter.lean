import CssSyntax.Proofs.Token.Tiling

/-! A source whose letters are written in another case. No look at a byte that the tokenizer makes
tells the two cases of a letter apart, so the tokens of both sources have the same kinds and the
same places. -/

namespace CssSyntax

/-- True of what shows the same for a letter in either case. -/
def Byte.Caseless {α : Type} (look : UInt8 → α) : Prop :=
  ∀ byte, look (Byte.lower byte) = look byte

theorem Byte.caseless_of_all {α : Type} {look : UInt8 → α}
    (all : ∀ code : Fin 256, look (Byte.lower (UInt8.ofFin code)) = look (UInt8.ofFin code)) :
    Byte.Caseless look :=
  fun byte => all byte.toFin

instance {α : Type} [DecidableEq α] (look : UInt8 → α) : Decidable (Byte.Caseless look) :=
  decidable_of_iff
    (∀ code : Fin 256, look (Byte.lower (UInt8.ofFin code)) = look (UInt8.ofFin code))
    ⟨Byte.caseless_of_all, fun caseless _ => caseless _⟩

/-- What the tokenizer asks of single bytes is the same for both cases of a letter. -/
theorem Byte.caseless_looks :
    Byte.Caseless Byte.isWhiteSpace ∧ Byte.Caseless Byte.isDigit ∧ Byte.Caseless Byte.isHexDigit ∧
      Byte.Caseless Byte.isIdentStart ∧ Byte.Caseless Byte.isIdentPart ∧
      Byte.Caseless Byte.isQuote ∧ Byte.Caseless Kind.ofPunctuation? := by
  decide +kernel

theorem Byte.isLetter_lower {byte : UInt8} (upper : Byte.isUpper byte = true) :
    Byte.isLetter (Byte.lower byte) = true := by
  have all : ∀ code : Fin 256, Byte.isUpper (UInt8.ofFin code) = true →
      Byte.isLetter (Byte.lower (UInt8.ofFin code)) = true := by decide +kernel
  exact all byte.toFin upper

theorem Byte.lower_eq_iff {byte plain : UInt8} (noLetter : Byte.isLetter plain = false) :
    Byte.lower byte = plain ↔ byte = plain := by
  -- A byte that moves is a letter, before and after.
  by_cases upper : Byte.isUpper byte = true
  · have letter := Byte.isLetter_lower upper
    constructor
    · rintro rfl
      exact absurd letter (Bool.eq_false_iff.1 noLetter)
    · rintro rfl
      simp [Byte.isLetter, upper] at noLetter
  · unfold Byte.lower
    rw [if_neg upper]

/-- A way to write sources again: every letter keeps or changes its case, and all else stays. The
second parse may also leave the comments out of its tree. -/
structure Respelling where
  byte : UInt8 → UInt8
  sameLetter : ∀ original, Byte.lower (byte original) = Byte.lower original
  keepsComments : Bool

namespace Respelling

variable {respelling : Respelling}

/-- All letters in lower case. -/
def lowering : Respelling := ⟨Byte.lower, Byte.caseless_of_all (by decide +kernel), true⟩

/-- The same bytes, and no comments in the tree. -/
def dropping : Respelling := ⟨id, fun _ => rfl, false⟩

section Looks

theorem look_byte {α : Type} {look : UInt8 → α} (caseless : Byte.Caseless look) (byte : UInt8) :
    look (respelling.byte byte) = look byte := by
  rw [← caseless, respelling.sameLetter, caseless]

@[simp]
theorem isWhiteSpace_byte (byte : UInt8) :
    Byte.isWhiteSpace (respelling.byte byte) = Byte.isWhiteSpace byte :=
  look_byte Byte.caseless_looks.1 byte

@[simp]
theorem isDigit_byte (byte : UInt8) :
    Byte.isDigit (respelling.byte byte) = Byte.isDigit byte :=
  look_byte Byte.caseless_looks.2.1 byte

@[simp]
theorem isHexDigit_byte (byte : UInt8) :
    Byte.isHexDigit (respelling.byte byte) = Byte.isHexDigit byte :=
  look_byte Byte.caseless_looks.2.2.1 byte

@[simp]
theorem isIdentStart_byte (byte : UInt8) :
    Byte.isIdentStart (respelling.byte byte) = Byte.isIdentStart byte :=
  look_byte Byte.caseless_looks.2.2.2.1 byte

@[simp]
theorem isIdentPart_byte (byte : UInt8) :
    Byte.isIdentPart (respelling.byte byte) = Byte.isIdentPart byte :=
  look_byte Byte.caseless_looks.2.2.2.2.1 byte

@[simp]
theorem isQuote_byte (byte : UInt8) :
    Byte.isQuote (respelling.byte byte) = Byte.isQuote byte :=
  look_byte Byte.caseless_looks.2.2.2.2.2.1 byte

@[simp]
theorem ofPunctuation?_byte (byte : UInt8) :
    Kind.ofPunctuation? (respelling.byte byte) = Kind.ofPunctuation? byte :=
  look_byte Byte.caseless_looks.2.2.2.2.2.2 byte

/-- A byte that is no letter is written in one way. -/
theorem byte_eq_iff {byte plain : UInt8} (noLetter : Byte.isLetter plain = false) :
    respelling.byte byte = plain ↔ byte = plain := by
  rw [← Byte.lower_eq_iff noLetter, respelling.sameLetter, Byte.lower_eq_iff noLetter]

theorem byte_plain {byte : UInt8} (noLetter : Byte.isLetter byte = false) :
    respelling.byte byte = byte :=
  (byte_eq_iff noLetter).2 rfl

theorem noLetter_of_isQuote {byte : UInt8} (quote : Byte.isQuote byte = true) :
    Byte.isLetter byte = false := by
  rcases Bool.or_eq_true_iff.1 quote with double | single
  · rw [eq_of_beq double]
    rfl
  · rw [eq_of_beq single]
    rfl

@[simp]
theorem lower_map (respelling : Respelling) (bytes : Bytes) :
    Bytes.lower (bytes.map respelling.byte) = Bytes.lower bytes := by
  unfold Bytes.lower
  rw [List.map_map]
  exact List.map_congr_left fun byte _ => respelling.sameLetter byte

theorem sameIgnoringCase_map (respelling : Respelling) (word bytes : Bytes) :
    Bytes.sameIgnoringCase word (bytes.map respelling.byte) =
      Bytes.sameIgnoringCase word bytes := by
  unfold Bytes.sameIgnoringCase
  rw [lower_map]

theorem map_sameIgnoringCase (word bytes : Bytes) :
    Bytes.sameIgnoringCase (bytes.map respelling.byte) word =
      Bytes.sameIgnoringCase bytes word := by
  unfold Bytes.sameIgnoringCase
  rw [lower_map]

end Looks

section Lexemes

theorem extent_map {σ : Type} {step : σ → UInt8 → Option σ}
    (blind : ∀ state byte, step state (respelling.byte byte) = step state byte) (state : σ)
    (bytes : Bytes) : extent step state (bytes.map respelling.byte) = extent step state bytes := by
  induction bytes generalizing state with
  | nil => rfl
  | cons byte rest ih => simp only [List.map_cons, extent, blind, ih]

theorem plainStep_byte (byte : UInt8) :
    NameState.plainStep (respelling.byte byte) = NameState.plainStep byte := by
  unfold NameState.plainStep
  simp (disch := decide) only [byte_eq_iff, isIdentPart_byte]

theorem nameStep_byte (state : NameState) (byte : UInt8) :
    NameState.step state (respelling.byte byte) = NameState.step state byte := by
  cases state with
  | plain => exact plainStep_byte byte
  | escape =>
    simp (disch := decide) only [NameState.step, isHexDigit_byte, byte_eq_iff]
  | hex left =>
    simp (disch := decide) only [NameState.step, isHexDigit_byte, plainStep_byte, byte_eq_iff]

theorem stringStep_byte {quote : UInt8} (isQuote : Byte.isQuote quote = true) (state : TextState)
    (byte : UInt8) :
    TextState.stringStep quote state (respelling.byte byte) =
      TextState.stringStep quote state byte := by
  cases state with
  | inside =>
    simp (disch := decide) only [TextState.stringStep,
      byte_eq_iff (noLetter_of_isQuote isQuote), byte_eq_iff]
  | escape => rfl
  | closed => rfl

theorem urlStep_byte (state : TextState) (byte : UInt8) :
    TextState.urlStep state (respelling.byte byte) = TextState.urlStep state byte := by
  cases state with
  | inside =>
    simp (disch := decide) only [TextState.urlStep, byte_eq_iff]
  | escape => rfl
  | closed => rfl

theorem commentStep_byte (state : CommentState) (byte : UInt8) :
    CommentState.step state (respelling.byte byte) = CommentState.step state byte := by
  cases state with
  | inside =>
    simp (disch := decide) only [CommentState.step, byte_eq_iff]
  | asterisk =>
    simp (disch := decide) only [CommentState.step, byte_eq_iff]
  | closed => rfl

theorem takeWhile_map_byte {look : UInt8 → Bool}
    (blind : ∀ byte, look (respelling.byte byte) = look byte) (bytes : Bytes) :
    (bytes.map respelling.byte).takeWhile look = (bytes.takeWhile look).map respelling.byte := by
  rw [List.takeWhile_map]
  congr 2
  exact funext blind

theorem dropWhile_map_byte {look : UInt8 → Bool}
    (blind : ∀ byte, look (respelling.byte byte) = look byte) (bytes : Bytes) :
    (bytes.map respelling.byte).dropWhile look = (bytes.dropWhile look).map respelling.byte := by
  rw [List.dropWhile_map]
  congr 2
  exact funext blind

theorem head?_any_map {look : UInt8 → Bool}
    (blind : ∀ byte, look (respelling.byte byte) = look byte) (bytes : Bytes) :
    (bytes.map respelling.byte).head?.any look = bytes.head?.any look := by
  cases bytes with
  | nil => rfl
  | cons byte rest => exact blind byte

theorem head?_eq_iff {plain : UInt8} (noLetter : Byte.isLetter plain = false) (bytes : Bytes) :
    (bytes.map respelling.byte).head? = some plain ↔ bytes.head? = some plain := by
  cases bytes with
  | nil => rfl
  | cons byte rest =>
    simp only [List.map_cons, List.head?_cons, Option.some.injEq, byte_eq_iff noLetter]

theorem getLast?_eq_iff {plain : UInt8} (noLetter : Byte.isLetter plain = false)
    (bytes : Bytes) :
    (bytes.map respelling.byte).getLast? = some plain ↔ bytes.getLast? = some plain := by
  rw [List.getLast?_map, Option.map_eq_some_iff]
  constructor
  · rintro ⟨byte, last, same⟩
    rw [last, (byte_eq_iff noLetter).1 same]
  · intro last
    exact ⟨plain, last, byte_plain noLetter⟩

theorem nameExtent_map (respelling : Respelling) (bytes : Bytes) :
    nameExtent (bytes.map respelling.byte) = nameExtent bytes :=
  extent_map nameStep_byte .plain bytes

theorem digitsExtent_map (respelling : Respelling) (bytes : Bytes) :
    digitsExtent (bytes.map respelling.byte) = digitsExtent bytes := by
  unfold digitsExtent
  rw [takeWhile_map_byte isDigit_byte, List.length_map]

theorem fractionExtent_map (bytes : Bytes) :
    fractionExtent (bytes.map respelling.byte) = fractionExtent bytes := by
  match bytes with
  | [] => rfl
  | [_] => rfl
  | point :: digit :: rest =>
    have digits := digitsExtent_map respelling (digit :: rest)
    rw [List.map_cons] at digits
    simp (disch := decide) only [List.map_cons, fractionExtent, isDigit_byte, digits, byte_eq_iff]

theorem numberExtent_map (respelling : Respelling) (bytes : Bytes) :
    numberExtent (bytes.map respelling.byte) = numberExtent bytes := by
  unfold numberExtent
  rw [digitsExtent_map, ← List.map_drop, fractionExtent_map]

theorem ofHash_map (rest : Bytes) :
    Lexeme.ofHash (rest.map respelling.byte) = Lexeme.ofHash rest := by
  unfold Lexeme.ofHash
  simp only [← List.map_take, ← List.map_drop, takeWhile_map_byte isHexDigit_byte,
    List.length_map, head?_any_map isIdentPart_byte]

theorem ofHyphen_map (rest : Bytes) :
    Lexeme.ofHyphen (rest.map respelling.byte) = Lexeme.ofHyphen rest := by
  cases rest with
  | nil => rfl
  | cons byte rest =>
    have name := nameExtent_map respelling (byte :: rest)
    have number := numberExtent_map respelling (byte :: rest)
    rw [List.map_cons] at name number
    simp (disch := decide) only [List.map_cons, Lexeme.ofHyphen, name, number, nameExtent_map,
      isDigit_byte, isIdentStart_byte, byte_eq_iff]

theorem ofSlash_map (rest : Bytes) :
    Lexeme.ofSlash (rest.map respelling.byte) = Lexeme.ofSlash rest := by
  unfold Lexeme.ofSlash
  simp (disch := decide) only [head?_eq_iff, ← List.map_tail,
    extent_map commentStep_byte]

theorem opensUrl_map (bytes : Bytes) :
    Lexeme.opensUrl (bytes.map respelling.byte) = Lexeme.opensUrl bytes := by
  have opening : ((bytes.map respelling.byte).head? == some Byte.openParen) =
      (bytes.head? == some Byte.openParen) := by
    rw [Bool.eq_iff_iff, beq_iff_eq, beq_iff_eq]
    exact head?_eq_iff rfl bytes
  unfold Lexeme.opensUrl
  rw [opening, ← List.map_tail, dropWhile_map_byte isWhiteSpace_byte,
    head?_any_map isQuote_byte]

theorem ofWord_map (first : UInt8) (rest : Bytes) :
    Lexeme.ofWord (respelling.byte first) (rest.map respelling.byte) =
      Lexeme.ofWord first rest := by
  unfold Lexeme.ofWord
  simp only [nameExtent_map, ← List.map_take, ← List.map_drop, ← List.map_cons,
    map_sameIgnoringCase, opensUrl_map, ← List.map_tail, extent_map urlStep_byte]

theorem ofColon_map (rest : Bytes) :
    Lexeme.ofColon (rest.map respelling.byte) = Lexeme.ofColon rest := by
  unfold Lexeme.ofColon
  simp (disch := decide) only [head?_eq_iff]

theorem ofCaret_map (rest : Bytes) :
    Lexeme.ofCaret (rest.map respelling.byte) = Lexeme.ofCaret rest := by
  unfold Lexeme.ofCaret
  simp (disch := decide) only [head?_eq_iff]

/-- The lexer cuts both sources at the same places. -/
theorem ofFirst_map (first : UInt8) (rest : Bytes) :
    Lexeme.ofFirst (respelling.byte first) (rest.map respelling.byte) =
      Lexeme.ofFirst first rest := by
  unfold Lexeme.ofFirst
  rw [ofPunctuation?_byte]
  split
  next => rfl
  next =>
    simp (disch := decide) only [isQuote_byte, isIdentStart_byte, isDigit_byte, ofCaret_map,
      ofColon_map, ofHash_map, ofHyphen_map, ofSlash_map, ofWord_map, numberExtent_map,
      extent_map nameStep_byte, byte_eq_iff]
    by_cases quote : Byte.isQuote first = true
    · rw [byte_plain (noLetter_of_isQuote quote), extent_map (stringStep_byte quote)]
    · rw [if_neg quote, if_neg quote]

end Lexemes

section Tokens

def token (respelling : Respelling) (token : Token) : Token :=
  { token with literal := token.literal.map respelling.byte }

theorem after_map (position : Position) (bytes : Bytes) :
    position.after (bytes.map respelling.byte) = position.after bytes := by
  induction bytes generalizing position with
  | nil => rfl
  | cons byte rest ih =>
    have first : position.next (respelling.byte byte) = position.next byte := by
      simp (disch := decide) only [Position.next, byte_eq_iff]
    have further := ih (position.next byte)
    unfold Position.after at further ⊢
    rw [List.map_cons, List.foldl_cons, List.foldl_cons, first, further]

def cut (respelling : Respelling) (cut : Cut) : Cut where
  gap := cut.gap.map respelling.byte
  kind := cut.kind
  literal := cut.literal.map respelling.byte
  rest := cut.rest.map respelling.byte

theorem ofBytes?_map (respelling : Respelling) (source : Bytes) :
    Cut.ofBytes? (source.map respelling.byte) =
      (Cut.ofBytes? source).map respelling.cut := by
  unfold Cut.ofBytes?
  rw [dropWhile_map_byte isWhiteSpace_byte, takeWhile_map_byte isWhiteSpace_byte]
  cases source.dropWhile Byte.isWhiteSpace with
  | nil => rfl
  | cons first rest =>
    simp only [List.map_cons, ofFirst_map, ← List.map_take, ← List.map_drop]
    rfl

theorem tokensFrom_map (position : Position) (source : Bytes) :
    tokensFrom position (source.map respelling.byte) =
      (tokensFrom position source).map respelling.token := by
  fun_induction tokensFrom position source with
  | case1 position source none =>
    have respelled := ofBytes?_map respelling source
    rw [none] at respelled
    rw [tokensFrom]
    split
    next => rw [after_map]; rfl
    next cut found => exact absurd (respelled.symm.trans found) (Option.some_ne_none cut).symm
  | case2 position source cut found start ih =>
    have respelled := ofBytes?_map respelling source
    rw [found] at respelled
    rw [tokensFrom]
    split
    next none => exact absurd (respelled.symm.trans none) (Option.some_ne_none _)
    next other found =>
      obtain rfl := Option.some.inj (respelled.symm.trans found)
      have first : position.after (respelling.cut cut).gap = start := after_map position cut.gap
      have last : start.after (respelling.cut cut).literal = start.after cut.literal :=
        after_map start cut.literal
      dsimp only
      rw [first, last]
      exact congrArg _ ih

/-- Both sources have the same tokens at the same places, and only their bytes are respelled. -/
theorem tokenize_map (respelling : Respelling) (source : Bytes) :
    tokenize (source.map respelling.byte) = (tokenize source).map respelling.token :=
  tokensFrom_map .start source

end Tokens

end Respelling

end CssSyntax

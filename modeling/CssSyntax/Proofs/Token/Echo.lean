import CssSyntax.Proofs.Token.Color

/-! The same token in two texts. What is cut off depends on few of the bytes behind it: where those
read alike up to a place at which neither text goes on with a name, the token is the same. -/

namespace CssSyntax

/-- The bytes that may stand in a text in place of a gap: a space, and the brackets that are put
right behind what was parted from them. -/
def Byte.parts (byte : UInt8) : Bool := byte == space || byte == openParen || byte == 0x5d

/-- True of the bytes of a name or a string that goes on with `byte`: the machine that reads them
takes it. -/
def Kind.takes (kind : Kind) (literal : Bytes) (byte : UInt8) : Bool :=
  match kind, literal with
  | .ident, name =>
    (name.foldlM NameState.step .plain).any fun state => (state.step byte).isSome
  | .string, quote :: inner =>
    (inner.foldlM (TextState.stringStep quote) .inside).any fun state =>
      (TextState.stringStep quote state byte).isSome
  | _, _ => false

def Token.takes (token : Token) (byte : UInt8) : Bool := token.kind.takes token.literal byte

namespace Byte

variable {byte : UInt8}

/-- A byte in place of a gap belongs to no name and no number. -/
theorem isIdentPart_of_parts (parted : parts byte = true) : isIdentPart byte = false := by
  simp only [parts, Bool.or_eq_true, beq_iff_eq] at parted
  rcases parted with (rfl | rfl) | rfl <;> rfl

theorem isDigit_of_parts (parted : parts byte = true) : isDigit byte = false := by
  have other := isIdentPart_of_parts parted
  simp only [isIdentPart, Bool.or_eq_false_iff] at other
  exact other.1.2

theorem ne_of_parts {other : UInt8} (never : parts other = false) (parted : parts byte = true) :
    byte ≠ other := by
  rintro rfl
  exact Bool.false_ne_true (never.symm.trans parted)

end Byte

/-- The bytes `here` may stand behind a token for the bytes `there`: no more than those do they go
on with it. -/
structure Replaces (kind : Kind) (literal there here : Bytes) : Prop where
  head : ∀ byte ∈ here.head?,
    byte ∈ there.head? ∨ Byte.parts byte = true ∧ kind.takes literal byte = false
  fraction : ∀ digit, [Byte.dot, digit] <+: here → Byte.isDigit digit = true →
    [Byte.dot, digit] <+: there
  color : kind = .hash → ∀ digits, ColorDigits here digits → ∃ others, ColorDigits there others
  url : kind = .ident → Bytes.sameIgnoringCase literal (utf8 "url") = true →
    Lexeme.opensUrl here = true → Lexeme.opensUrl there = true
  finish : there = [] → here = []

theorem extent_replace {σ : Type} {step : σ → UInt8 → Option σ} {state : σ}
    {body there here : Bytes} (whole : extent step state (body ++ there) = body.length)
    (refused : ∀ final, body.foldlM step state = some final →
      ∀ byte ∈ here.head?, byte ∈ there.head? ∨ step final byte = none) :
    extent step state (body ++ here) = body.length := by
  obtain ⟨final, reaches, stopped⟩ := extent_maximal step state (body ++ there)
  rw [whole, List.take_left] at reaches
  rw [whole, List.drop_left] at stopped
  refine extent_of_refused here reaches fun byte first => ?_
  exact (refused final reaches byte first).elim (stopped byte) id

section Numbers

variable {body there here : Bytes}

theorem digitsExtent_replace (whole : digitsExtent (body ++ there) = body.length)
    (refused : ∀ byte ∈ here.head?, byte ∈ there.head? ∨ Byte.isDigit byte = false) :
    digitsExtent (body ++ here) = body.length := by
  unfold digitsExtent at whole ⊢
  induction body with
  | nil =>
    cases here with
    | nil => rfl
    | cons byte rest =>
      have stops : Byte.isDigit byte = false := by
        refine (refused byte rfl).elim (fun same => Bool.eq_false_iff.2 fun goes => ?_) id
        obtain ⟨tail, rfl⟩ := List.head?_eq_some_iff.1 same
        rw [List.nil_append, List.takeWhile_cons_of_pos goes] at whole
        exact absurd whole (Nat.succ_ne_zero _)
      rw [List.nil_append, List.takeWhile_cons_of_neg (Bool.eq_false_iff.1 stops)]
  | cons byte rest ih =>
    rw [List.cons_append, List.takeWhile_cons] at whole ⊢
    split at whole
    next goes =>
      rw [if_pos goes, List.length_cons, ih (Nat.succ.inj whole), List.length_cons]
    next => exact absurd whole.symm (Nat.succ_ne_zero _)

theorem fractionExtent_replace (none : fractionExtent there = 0)
    (fraction : ∀ digit, [Byte.dot, digit] <+: here → Byte.isDigit digit = true →
      [Byte.dot, digit] <+: there) : fractionExtent here = 0 := by
  match here with
  | [] => rfl
  | [point] => rfl
  | point :: digit :: rest =>
    refine if_neg fun ⟨is, goes⟩ => ?_
    obtain ⟨tail, rfl⟩ := fraction digit (is ▸ ⟨rest, rfl⟩) goes
    rw [List.cons_append, List.cons_append, fractionExtent, if_pos ⟨rfl, goes⟩] at none
    exact absurd none (Nat.succ_ne_zero _)

theorem numberExtent_replace (whole : numberExtent (body ++ there) = body.length)
    (digits : ∀ byte ∈ here.head?, byte ∈ there.head? ∨ Byte.isDigit byte = false)
    (fraction : ∀ digit, [Byte.dot, digit] <+: here → Byte.isDigit digit = true →
      [Byte.dot, digit] <+: there) :
    numberExtent (body ++ here) = body.length := by
  induction body with
  | nil =>
    obtain ⟨none, behind⟩ := Nat.add_eq_zero_iff.1 whole
    rw [none] at behind
    have still : digitsExtent ([] ++ here) = ([] : Bytes).length :=
      digitsExtent_replace none digits
    rw [List.nil_append, List.length_nil] at still
    change digitsExtent here + fractionExtent (here.drop (digitsExtent here)) = 0
    rw [still]
    exact (Nat.zero_add _).trans (fractionExtent_replace behind fraction)
  | cons byte rest ih =>
    rw [List.cons_append] at whole ⊢
    by_cases digit : Byte.isDigit byte = true
    · rw [numberExtent_digit digit] at whole ⊢
      rw [List.length_cons, Nat.add_comm] at whole ⊢
      rw [ih (Nat.succ.inj whole)]
    · -- The bytes are those of a fraction, with at least one digit.
      have plain (bytes : Bytes) :
          numberExtent (byte :: bytes) = fractionExtent (byte :: bytes) := by
        have none : digitsExtent (byte :: bytes) = 0 := by
          rw [digitsExtent, List.takeWhile_cons_of_neg digit]
          rfl
        rw [numberExtent, none, Nat.zero_add]
        rfl
      rw [plain, fractionExtent_cons] at whole ⊢
      split at whole
      next starts =>
        have same : digitsExtent (rest ++ there) = rest.length := Nat.succ.inj whole
        have some : rest ≠ [] := by
          rintro rfl
          cases there with
          | nil => exact Bool.false_ne_true starts.2
          | cons first tail =>
            have goes : Byte.isDigit first = true := starts.2
            rw [List.nil_append, digitsExtent, List.takeWhile_cons_of_pos goes] at same
            exact absurd same (Nat.succ_ne_zero _)
        have still : (rest ++ here).head? = (rest ++ there).head? := by
          rw [List.head?_append_of_ne_nil _ some, List.head?_append_of_ne_nil _ some]
        rw [if_pos (still ▸ starts), digitsExtent_replace same digits]
        rfl
      next => exact absurd whole.symm (Nat.succ_ne_zero _)

theorem Replaces.number {kind : Kind} {literal : Bytes}
    (replaces : Replaces kind literal there here)
    (whole : numberExtent (body ++ there) = body.length) :
    numberExtent (body ++ here) = body.length := by
  refine numberExtent_replace whole (fun byte first => ?_) replaces.fraction
  exact (replaces.head byte first).imp_right fun parted => Byte.isDigit_of_parts parted.1

end Numbers

namespace Lexeme

/-- A machine that reads the same token with other bytes behind it that may stand there. -/
def Heeds (first : UInt8) (reads : Bytes → Lexeme) : Prop :=
  ∀ kind body there here, reads (body ++ there) = ⟨kind, body.length⟩ → kind ≠ .comment →
    Replaces kind (first :: body) there here → reads (body ++ here) = ⟨kind, body.length⟩

variable {first : UInt8}

theorem Heeds.ite {condition : Prop} [Decidable condition] {yes no : Bytes → Lexeme}
    (one : Heeds first yes) (two : Heeds first no) :
    Heeds first fun rest => if condition then yes rest else no rest := by
  split
  · exact one
  · exact two

theorem heeds_const (lexeme : Lexeme) : Heeds first fun _ => lexeme :=
  fun _ _ _ _ read _ _ => read

/-- One kind if a certain byte follows, and another kind without it. -/
theorem heeds_pair {second : UInt8} (double single : Kind) (never : Byte.parts second = false) :
    Heeds first fun rest =>
      if rest.head? = some second then ⟨double, 1⟩ else ⟨single, 0⟩ := by
  intro kind body there here read _ replaces
  dsimp only at read ⊢
  cases body with
  | cons byte rest => exact read
  | nil =>
    rw [List.nil_append] at read ⊢
    split at read
    next => exact absurd (Lexeme.mk.inj read).2 Nat.one_ne_zero
    next other =>
      refine (if_neg fun is => ?_).trans read
      rcases replaces.head second is with same | ⟨parted, -⟩
      · exact other same
      · exact Byte.ne_of_parts never parted rfl

section Names

variable {body there here : Bytes} {byte : UInt8}

theorem step_of_takes {literal : Bytes} {final : NameState}
    (reaches : literal.foldlM NameState.step .plain = some final)
    (free : Kind.takes .ident literal byte = false) : final.step byte = none := by
  change Option.any _ (literal.foldlM NameState.step .plain) = false at free
  rw [reaches] at free
  exact Option.not_isSome_iff_eq_none.1 (Bool.eq_false_iff.1 free)

/-- A name from `start` on, in which the bytes of the token before it lead there. -/
theorem nameExtent_replace {literal : Bytes} {start : NameState}
    (leads : literal.foldlM NameState.step .plain = body.foldlM NameState.step start)
    (replaces : Replaces .ident literal there here)
    (whole : extent NameState.step start (body ++ there) = body.length) :
    extent NameState.step start (body ++ here) = body.length := by
  refine extent_replace whole fun final reaches byte first => ?_
  refine (replaces.head byte first).imp_right fun ⟨_, free⟩ => ?_
  exact step_of_takes (leads.trans reaches) free

theorem heeds_name {start : NameState} (leads : NameState.step .plain first = some start) :
    Heeds first fun rest => ⟨.ident, extent NameState.step start rest⟩ := by
  intro kind body there here read _ replaces
  obtain ⟨rfl, whole⟩ := Lexeme.mk.inj read
  dsimp only
  rw [nameExtent_replace ?_ replaces whole]
  rw [List.foldlM_cons, leads]
  rfl

end Names

theorem heeds_string {quote : UInt8} :
    Heeds quote fun rest => ⟨.string, extent (TextState.stringStep quote) .inside rest⟩ := by
  intro kind body there here read _ replaces
  obtain ⟨rfl, whole⟩ := Lexeme.mk.inj read
  dsimp only
  rw [extent_replace whole]
  intro final reaches byte is
  refine (replaces.head byte is).imp_right fun ⟨_, free⟩ => ?_
  change Option.any _ (body.foldlM (TextState.stringStep quote) .inside) = false at free
  rw [reaches] at free
  exact Option.not_isSome_iff_eq_none.1 (Bool.eq_false_iff.1 free)

theorem heeds_number : Heeds first fun rest => ⟨.number, numberExtent rest⟩ := by
  intro kind body there here read _ replaces
  obtain ⟨rfl, whole⟩ := Lexeme.mk.inj read
  dsimp only
  rw [replaces.number whole]

theorem ofHash_heeds : Heeds first ofHash := by
  intro kind body there here read _ replaces
  by_cases color : ∃ digits, ColorDigits (body ++ there) digits
  · obtain ⟨digits, written, hex, count, ends⟩ := color
    rw [ofHash_of_colorDigits ⟨written, hex, count, ends⟩] at read
    obtain ⟨rfl, length⟩ := Lexeme.mk.inj read
    have front := List.prefix_of_prefix_length_le written (List.prefix_append body there)
      (Nat.le_of_eq length)
    obtain rfl := front.eq_of_length length
    rw [List.drop_left] at ends
    refine ofHash_of_colorDigits ⟨List.prefix_append .., hex, count, fun byte first => ?_⟩
    rw [List.drop_left] at first
    rcases replaces.head byte first with same | ⟨parted, -⟩
    · exact ends byte same
    · exact Byte.isIdentPart_of_parts parted
  · rw [ofHash_of_none color] at read
    obtain ⟨rfl, length⟩ := Lexeme.mk.inj read
    obtain rfl := List.length_eq_zero_iff.1 length.symm
    refine ofHash_of_none fun ⟨digits, written⟩ => color (replaces.color rfl digits written)

theorem ofSlash_heeds : Heeds first ofSlash := by
  intro kind body there here read plain replaces
  unfold ofSlash at read ⊢
  split at read
  next => exact absurd (Lexeme.mk.inj read).1.symm plain
  next other =>
    obtain ⟨rfl, length⟩ := Lexeme.mk.inj read
    obtain rfl := List.length_eq_zero_iff.1 length.symm
    refine if_neg fun is => ?_
    rcases replaces.head _ is with same | ⟨parted, -⟩
    · exact other same
    · exact Byte.ne_of_parts rfl parted rfl

theorem plainStep_of_isIdentStart (starts : Byte.isIdentStart first = true) :
    NameState.step .plain first = some .plain := by
  have part : Byte.isIdentPart first = true := by simp [Byte.isIdentPart, starts]
  have other : first ≠ Byte.backslash := by
    rintro rfl
    exact absurd starts (by decide)
  rw [NameState.step, NameState.plainStep, if_neg other, if_pos part]

/-- A hyphen that no name and no number goes on from. -/
theorem ofHyphen_minus {rest : Bytes} (alone : ∀ byte ∈ rest.head?, byte ≠ Byte.hyphen ∧
    Byte.isDigit byte = false ∧ ¬(Byte.isIdentStart byte = true ∨ byte = Byte.backslash)) :
    ofHyphen rest = ⟨.minus, 0⟩ := by
  cases rest with
  | nil => rfl
  | cons byte rest =>
    obtain ⟨hyphen, digit, name⟩ := alone byte rfl
    rw [ofHyphen, if_neg hyphen, if_neg (Bool.eq_false_iff.1 digit), if_neg name]

theorem alone_of_ofHyphen {rest : Bytes} {kind : Kind} (read : ofHyphen rest = ⟨kind, 0⟩) :
    kind = .minus ∧ ∀ byte ∈ rest.head?, byte ≠ Byte.hyphen ∧ Byte.isDigit byte = false ∧
      ¬(Byte.isIdentStart byte = true ∨ byte = Byte.backslash) := by
  cases rest with
  | nil => exact ⟨(Lexeme.mk.inj read).1.symm, nofun⟩
  | cons byte rest =>
    rw [ofHyphen] at read
    split at read
    next => exact absurd (Lexeme.mk.inj read).2 (Nat.succ_ne_zero _)
    next hyphen =>
      split at read
      next digit => exact absurd (Lexeme.mk.inj read).2 (numberExtent_pos digit rest).ne'
      next digit =>
        split at read
        next name => exact absurd (Lexeme.mk.inj read).2 (nameExtent_pos name rest).ne'
        next name =>
          refine ⟨(Lexeme.mk.inj read).1.symm, fun other is => ?_⟩
          obtain rfl := Option.some.inj is
          exact ⟨hyphen, Bool.eq_false_iff.2 digit, name⟩

theorem isIdentStart_of_parts {byte : UInt8} (parted : Byte.parts byte = true) :
    ¬(Byte.isIdentStart byte = true ∨ byte = Byte.backslash) := by
  have other := Byte.isIdentPart_of_parts parted
  simp only [Byte.isIdentPart, Bool.or_eq_false_iff] at other
  rintro (starts | is)
  · exact Bool.false_ne_true (other.1.1.symm.trans starts)
  · exact Byte.ne_of_parts rfl parted is

theorem ofHyphen_heeds : Heeds Byte.hyphen ofHyphen := by
  intro kind body there here read _ replaces
  cases body with
  | nil =>
    obtain ⟨rfl, alone⟩ := alone_of_ofHyphen read
    refine ofHyphen_minus fun byte first => ?_
    rcases replaces.head byte first with same | ⟨parted, -⟩
    · exact alone byte same
    · exact ⟨Byte.ne_of_parts rfl parted, Byte.isDigit_of_parts parted,
        isIdentStart_of_parts parted⟩
  | cons byte rest =>
    rw [List.cons_append, ofHyphen] at read ⊢
    split at read
    next hyphen =>
      obtain ⟨rfl, length⟩ := Lexeme.mk.inj read
      subst hyphen
      have leads : (Byte.hyphen :: Byte.hyphen :: rest).foldlM NameState.step .plain =
          rest.foldlM NameState.step .plain := rfl
      have name := nameExtent_replace leads replaces (Nat.succ.inj length)
      rw [if_pos rfl, nameExtent, name]
      rfl
    next hyphen =>
      rw [if_neg hyphen]
      split at read
      next digit =>
        obtain ⟨rfl, length⟩ := Lexeme.mk.inj read
        rw [if_pos digit]
        exact congrArg _ (@Replaces.number (byte :: rest) _ _ _ _ replaces length)
      next digit =>
        rw [if_neg digit]
        split at read
        next name =>
          obtain ⟨rfl, length⟩ := Lexeme.mk.inj read
          have leads : (Byte.hyphen :: byte :: rest).foldlM NameState.step .plain =
              (byte :: rest).foldlM NameState.step .plain := rfl
          have whole := nameExtent_replace leads replaces length
          rw [if_pos name]
          exact congrArg _ whole
        next => exact absurd (Lexeme.mk.inj read).2.symm (Nat.succ_ne_zero _)

section Urls

variable {word inner there here : Bytes}

/-- Only after its end does a url refuse a byte. -/
theorem closed_of_refused {state : TextState} {byte : UInt8}
    (refused : TextState.urlStep state byte = none) : state = .closed := by
  cases state with
  | inside =>
    rw [TextState.urlStep] at refused
    split at refused
    next => exact absurd refused (Option.some_ne_none _)
    next => split at refused <;> exact absurd refused (Option.some_ne_none _)
  | escape => exact absurd refused (Option.some_ne_none _)
  | closed => rfl

/-- What closes a url is no white space. -/
theorem unquoted_replace
    (unquoted : ((inner ++ there).dropWhile Byte.isWhiteSpace).head?.any Byte.isQuote = false)
    (closed : ∃ body, inner = body ++ [Byte.closeParen] ∧ Bytes.endsEscaping body = false) :
    ((inner ++ here).dropWhile Byte.isWhiteSpace).head?.any Byte.isQuote = false := by
  have some : (inner.dropWhile Byte.isWhiteSpace).isEmpty = false := by
    obtain ⟨body, rfl, _⟩ := closed
    rw [List.isEmpty_eq_false_iff]
    intro blank
    have member := List.mem_append_right body (List.mem_singleton_self Byte.closeParen)
    exact absurd (List.dropWhile_eq_nil_iff.1 blank _ member) (by decide)
  have front (bytes : Bytes) : ((inner ++ bytes).dropWhile Byte.isWhiteSpace).head? =
      (inner.dropWhile Byte.isWhiteSpace).head? := by
    rw [List.dropWhile_append, if_neg (Bool.eq_false_iff.1 some),
      List.head?_append_of_ne_nil _ (List.isEmpty_eq_false_iff.1 some)]
  rw [front] at unquoted ⊢
  exact unquoted

/-- A url that something follows has its end, and stops there whatever follows. -/
theorem url_replace {kind : Kind} {literal : Bytes} (replaces : Replaces kind literal there here)
    (starts : StartsUrl first word)
    (unquoted : ((inner ++ there).dropWhile Byte.isWhiteSpace).head?.any Byte.isQuote = false)
    (whole : extent TextState.urlStep .inside (inner ++ there) = inner.length) :
    ofWord first (word ++ Byte.openParen :: (inner ++ here)) =
      ⟨.uri, word.length + 1 + inner.length⟩ := by
  cases there with
  | nil =>
    rw [replaces.finish rfl, ofWord_of_startsUrl starts unquoted, whole]
  | cons byte rest =>
    obtain ⟨final, reaches, stopped⟩ := extent_maximal TextState.urlStep .inside
      (inner ++ byte :: rest)
    rw [whole, List.take_left] at reaches
    rw [whole, List.drop_left] at stopped
    have shut := closed_of_refused (stopped byte rfl)
    have closed := (urlFinal_closed_iff reaches).1 shut
    rw [ofWord_of_startsUrl starts (unquoted_replace unquoted closed),
      extent_of_refused here reaches fun _ _ => by rw [shut]; rfl]

theorem ofWord_heeds (starts : Byte.isIdentStart first = true) : Heeds first (ofWord first) := by
  intro kind body there here read _ replaces
  rcases ofWord_cases first (body ++ there) with ⟨word, tail, split, url, unquoted⟩ | none
  · rw [split, ofWord_of_startsUrl url unquoted] at read
    obtain ⟨rfl, length⟩ := Lexeme.mk.inj read
    obtain ⟨inner, rfl, rfl, whole⟩ : ∃ inner, body = word ++ Byte.openParen :: inner ∧
        tail = inner ++ there ∧
        extent TextState.urlStep .inside tail = inner.length := by
      have inner := @taken_url word tail (extent TextState.urlStep .inside tail)
      rw [length, ← split, List.take_left] at inner
      refine ⟨_, inner, ?_, ?_⟩
      · rw [inner, List.append_assoc, List.append_cancel_left_eq, List.cons_append] at split
        exact (List.cons.inj split).2.symm
      · rw [List.length_take, Nat.min_eq_left (extent_le ..)]
    rw [List.append_assoc, List.cons_append, url_replace replaces url unquoted whole, ← whole,
      length]
  · rw [ofWord_name none] at read
    obtain ⟨rfl, length⟩ := Lexeme.mk.inj read
    have leads : (first :: body).foldlM NameState.step .plain =
        body.foldlM NameState.step .plain := by
      rw [List.foldlM_cons, plainStep_of_isIdentStart starts]
      rfl
    have name : nameExtent (body ++ here) = body.length :=
      nameExtent_replace leads replaces length
    rw [length, List.take_left, List.drop_left] at none
    rw [ofWord_name, name]
    rw [name, List.take_left, List.drop_left]
    rcases Bool.and_eq_false_iff.1 none with other | closed
    · rw [other, Bool.false_and]
    · cases word : Bytes.sameIgnoringCase (first :: body) (utf8 "url") with
      | false => rfl
      | true =>
        rw [Bool.true_and]
        exact Bool.eq_false_iff.2 fun opens =>
          Bool.false_ne_true (closed.symm.trans (replaces.url rfl word opens))

end Urls

/-- Every token is the same with other bytes behind it that may stand there. -/
theorem ofFirst_heeds (first : UInt8) : Heeds first (ofFirst first) := by
  unfold ofFirst
  split
  next kind _ => exact heeds_const ⟨kind, 0⟩
  refine (heeds_pair .startsWith .illegal rfl).ite <|
    (heeds_pair .doubleColon .colon rfl).ite <| ofHash_heeds.ite ?_
  split
  next is => exact is ▸ ofHyphen_heeds
  split
  next is => exact heeds_name (is ▸ rfl)
  refine ofSlash_heeds.ite <| heeds_string.ite ?_
  split
  next starts => exact ofWord_heeds starts
  next => exact heeds_number.ite (heeds_const ⟨.illegal, 0⟩)

end Lexeme

namespace Cut

variable {source here : Bytes} {cut : Cut}

/-- A token of a source is cut off with other bytes behind it that may stand there. -/
theorem replace (found : Cut.ofBytes? source = some cut) (plain : cut.kind ≠ .comment)
    (replaces : Replaces cut.kind cut.literal cut.rest here) :
    Cut.ofBytes? (cut.literal ++ here) = some ⟨[], cut.kind, cut.literal, here⟩ := by
  obtain ⟨first, rest, split, kind, literal, left⟩ := of_found found
  have within := (Lexeme.ofFirst_delimited first).within rest
  have length : (rest.take (Lexeme.ofFirst first rest).extra).length =
      (Lexeme.ofFirst first rest).extra := List.length_take_of_le within
  have read : Lexeme.ofFirst first (rest.take (Lexeme.ofFirst first rest).extra ++
      rest.drop (Lexeme.ofFirst first rest).extra) =
        ⟨cut.kind, (rest.take (Lexeme.ofFirst first rest).extra).length⟩ := by
    rw [List.take_append_drop, length, kind]
  rw [literal, left] at replaces
  have same := Lexeme.ofFirst_heeds first _ _ _ _ read plain replaces
  have visible := Byte.not_isWhiteSpace_of_dropWhile split
  rw [literal]
  unfold Lexeme.literal Cut.ofBytes?
  rw [List.cons_append, List.dropWhile_cons_of_neg (by simp [visible]),
    List.takeWhile_cons_of_neg (by simp [visible])]
  dsimp only
  rw [same, List.take_left, List.drop_left]

end Cut

end CssSyntax

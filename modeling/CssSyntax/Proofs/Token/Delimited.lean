import CssSyntax.Proofs.Token.Seam

/-! Where the machines that cut tokens stop. Each takes from the bytes of its token what it took
from the whole source, and does at a line feed what it does at the end of the input, unless it was
cut short there: a comment, a url, or a string after a backslash. -/

namespace CssSyntax

/-- Whether a backslash waits for a byte to escape after `byte`, given whether one did before. -/
def Byte.escapes (escaped : Bool) (byte : UInt8) : Bool := !escaped && byte == backslash

/-- True of bytes whose last is a backslash without a byte to escape. -/
def Bytes.endsEscaping (bytes : Bytes) : Bool := bytes.foldl Byte.escapes false

/-- True of the bytes of a token that was cut short: a comment or a url without its end, or a
string whose last backslash has nothing to escape. -/
def Kind.Unfinished : Kind → Bytes → Prop
  | .comment, literal => ¬∃ body, literal = utf8 "/*" ++ body ++ utf8 "*/"
  | .uri, literal =>
    ¬∃ body, literal = body ++ [Byte.closeParen] ∧ Bytes.endsEscaping body = false
  | .string, literal => Bytes.endsEscaping literal = true
  | _, _ => False

/-- True of a token that takes in what is put behind it, a line feed too. -/
def Token.Unfinished (token : Token) : Prop := token.kind.Unfinished token.literal

section Automata

variable {σ : Type} {step : σ → UInt8 → Option σ} {state final : σ} {bytes : Bytes}

/-- An automaton goes as far as it can. -/
theorem extent_maximal (step : σ → UInt8 → Option σ) (state : σ) (bytes : Bytes) :
    ∃ final, (bytes.take (extent step state bytes)).foldlM step state = some final ∧
      ∀ byte ∈ (bytes.drop (extent step state bytes)).head?, step final byte = none := by
  induction bytes generalizing state with
  | nil => exact ⟨state, rfl, nofun⟩
  | cons byte rest ih =>
    rw [extent]
    cases taken : step state byte with
    | none => exact ⟨state, rfl, fun other is => Option.some.inj is ▸ taken⟩
    | some next =>
      obtain ⟨final, reaches, refused⟩ := ih next
      refine ⟨final, ?_, refused⟩
      rw [List.take_succ_cons, List.foldlM_cons, taken]
      exact reaches

/-- What an automaton takes is what it takes alone, and with a byte behind that it refuses. -/
theorem extent_of_refused (more : Bytes) (reaches : bytes.foldlM step state = some final)
    (refused : ∀ byte ∈ more.head?, step final byte = none) :
    extent step state (bytes ++ more) = bytes.length := by
  have stopped : extent step final more = 0 := by
    cases more with
    | nil => rfl
    | cons byte rest => rw [extent, refused byte rfl]
  rw [extent_append_of_final more reaches, stopped, Nat.add_zero]

theorem extent_take (step : σ → UInt8 → Option σ) (state : σ) (bytes : Bytes) :
    extent step state (bytes.take (extent step state bytes)) = extent step state bytes := by
  obtain ⟨final, reaches, _⟩ := extent_maximal step state bytes
  have alone := extent_of_refused [] reaches nofun
  rwa [List.append_nil, List.length_take, Nat.min_eq_left (extent_le step state bytes)] at alone

/-- A line feed stops an automaton that does not take it where it stands. -/
theorem extent_newline (more : Bytes)
    (refused : ∀ final, (bytes.take (extent step state bytes)).foldlM step state = some final →
      step final Byte.newline = none) :
    extent step state (bytes ++ Byte.newline :: more) = extent step state bytes := by
  rcases Nat.lt_or_eq_of_le (extent_le step state bytes) with within | whole
  · exact extent_append _ within
  · obtain ⟨final, reaches⟩ := exists_final_of_extent whole
    rw [whole, List.take_length] at refused
    rw [whole]
    exact extent_of_refused _ reaches fun byte is => Option.some.inj is ▸ refused final reaches

/-- An automaton that takes any byte where it stands has come to the end. -/
theorem extent_eq_length
    (takes : ∀ final, (bytes.take (extent step state bytes)).foldlM step state = some final →
      ∀ byte, step final byte ≠ none) :
    extent step state bytes = bytes.length := by
  obtain ⟨final, reaches, refused⟩ := extent_maximal step state bytes
  refine Nat.le_antisymm (extent_le step state bytes) (List.drop_eq_nil_iff.1 ?_)
  cases left : bytes.drop (extent step state bytes) with
  | nil => rfl
  | cons byte rest =>
    rw [left] at refused
    exact absurd (refused byte rfl) (takes final reaches byte)

/-- The last byte brings the automaton where it is in the end. -/
theorem foldlM_concat {byte : UInt8} :
    (bytes ++ [byte]).foldlM step state = some final ↔
      ∃ middle, bytes.foldlM step state = some middle ∧ step middle byte = some final := by
  rw [List.foldlM_append]
  simp only [List.foldlM_cons, List.foldlM_nil, bind_pure]
  exact Option.bind_eq_some_iff

end Automata

section Texts

theorem nameStep_newline (state : NameState) : state.step Byte.newline = none := by
  cases state <;> rfl

def TextState.isEscape : TextState → Bool
  | .escape => true
  | _ => false

namespace TextState

/-- Text that one byte closes, and that others break off. -/
def step (closing : UInt8) (breaks : UInt8 → Bool) : TextState → UInt8 → Option TextState
  | .inside, byte =>
    if byte = closing then some .closed
    else if breaks byte then none
    else if byte = Byte.backslash then some .escape
    else some .inside
  | .escape, _ => some .inside
  | .closed, _ => none

theorem stringStep_eq (quote : UInt8) : stringStep quote = step quote (· == Byte.newline) := by
  funext state byte
  cases state with
  | inside => simp only [stringStep, step, beq_iff_eq]
  | escape => rfl
  | closed => rfl

theorem urlStep_eq : urlStep = step Byte.closeParen fun _ => false := by
  funext state byte
  cases state with
  | inside => simp only [urlStep, step, Bool.false_eq_true, if_false]
  | escape => rfl
  | closed => rfl

theorem step_escapes {closing byte : UInt8} {breaks : UInt8 → Bool}
    (plain : closing ≠ Byte.backslash) {state next : TextState}
    (taken : step closing breaks state byte = some next) :
    next.isEscape = Byte.escapes state.isEscape byte := by
  cases state with
  | inside =>
    rw [step] at taken
    unfold Byte.escapes
    split at taken
    next is =>
      obtain rfl := Option.some.inj taken
      simp [is, plain, isEscape]
    split at taken
    next => exact absurd taken.symm (Option.some_ne_none next)
    split at taken
    next is =>
      obtain rfl := Option.some.inj taken
      simp [is, isEscape]
    next other =>
      obtain rfl := Option.some.inj taken
      simp [other, isEscape]
  | escape =>
    obtain rfl := Option.some.inj taken
    rfl
  | closed => exact absurd taken.symm (Option.some_ne_none next)

end TextState

theorem ne_backslash_of_isQuote {quote : UInt8} (isQuote : Byte.isQuote quote = true) :
    quote ≠ Byte.backslash := by
  rintro rfl
  exact absurd isQuote (by decide)

theorem stringStep_escapes {quote byte : UInt8} (isQuote : Byte.isQuote quote = true)
    {state next : TextState} (taken : TextState.stringStep quote state byte = some next) :
    next.isEscape = Byte.escapes state.isEscape byte := by
  rw [TextState.stringStep_eq] at taken
  exact TextState.step_escapes (ne_backslash_of_isQuote isQuote) taken

theorem urlStep_escapes {byte : UInt8} {state next : TextState}
    (taken : TextState.urlStep state byte = some next) :
    next.isEscape = Byte.escapes state.isEscape byte := by
  rw [TextState.urlStep_eq] at taken
  exact TextState.step_escapes (by decide) taken

/-- Delimited text is after a backslash where its bytes end with one that escapes nothing. -/
theorem isEscape_final {step : TextState → UInt8 → Option TextState}
    (escapes : ∀ state byte next, step state byte = some next →
      next.isEscape = Byte.escapes state.isEscape byte)
    {state final : TextState} {bytes : Bytes}
    (reaches : bytes.foldlM step state = some final) :
    final.isEscape = bytes.foldl Byte.escapes state.isEscape := by
  induction bytes generalizing state with
  | nil =>
    obtain rfl := Option.some.inj reaches
    rfl
  | cons byte rest ih =>
    rw [List.foldlM_cons] at reaches
    obtain ⟨next, taken, further⟩ := Option.bind_eq_some_iff.1 reaches
    rw [List.foldl_cons, ih further, escapes state byte next taken]

/-- What stands before a byte that is no backslash escapes nothing behind it. -/
theorem endsEscaping_append {front : Bytes} {byte : UInt8} (plain : byte ≠ Byte.backslash)
    (back : Bytes) : Bytes.endsEscaping (front ++ byte :: back) = Bytes.endsEscaping back := by
  have none (escaped : Bool) : Byte.escapes escaped byte = false := by
    simp [Byte.escapes, plain]
  unfold Bytes.endsEscaping
  rw [List.foldl_append, List.foldl_cons, none]

/-- Only its closing byte closes a text, where it is not escaped. -/
theorem closed_of_step {closing byte : UInt8} {breaks : UInt8 → Bool} {state : TextState}
    (closes : TextState.step closing breaks state byte = some .closed) :
    state = .inside ∧ byte = closing := by
  cases state with
  | inside =>
    refine ⟨rfl, ?_⟩
    by_contra other
    rw [TextState.step, if_neg other] at closes
    split at closes
    · exact absurd closes.symm (Option.some_ne_none _)
    · split at closes <;> exact absurd (Option.some.inj closes) (by simp)
  | escape => exact absurd (Option.some.inj closes) (by simp)
  | closed => exact absurd closes.symm (Option.some_ne_none _)

/-- A url is closed by a parenthesis that no backslash escapes. -/
theorem urlFinal_closed_iff {bytes : Bytes} {final : TextState}
    (reaches : bytes.foldlM TextState.urlStep .inside = some final) :
    final = .closed ↔
      ∃ body, bytes = body ++ [Byte.closeParen] ∧ Bytes.endsEscaping body = false := by
  have escapes {body : Bytes} {state : TextState}
      (read : body.foldlM TextState.urlStep .inside = some state) :
      state.isEscape = Bytes.endsEscaping body :=
    isEscape_final (fun _ _ _ => urlStep_escapes) read
  constructor
  · rintro rfl
    rcases List.eq_nil_or_concat bytes with rfl | ⟨body, last, rfl⟩
    · exact absurd (Option.some.inj reaches) (by simp)
    · rw [List.concat_eq_append] at reaches ⊢
      obtain ⟨state, read, closes⟩ := foldlM_concat.1 reaches
      rw [TextState.urlStep_eq] at closes
      obtain ⟨rfl, rfl⟩ := closed_of_step closes
      exact ⟨body, rfl, (escapes read).symm⟩
  · rintro ⟨body, rfl, plain⟩
    obtain ⟨state, read, closes⟩ := foldlM_concat.1 reaches
    cases state with
    | inside => exact (Option.some.inj closes).symm
    | escape => exact absurd ((escapes read).trans plain) (Ne.symm Bool.false_ne_true)
    | closed => exact absurd closes.symm (Option.some_ne_none _)

section Urls

variable {tail : Bytes}

/-- A url that has its end stops there, also before a line feed. -/
theorem urlExtent_newline (more : Bytes)
    (finished : ∃ body, tail.take (extent TextState.urlStep .inside tail) =
      body ++ [Byte.closeParen] ∧ Bytes.endsEscaping body = false) :
    extent TextState.urlStep .inside (tail ++ Byte.newline :: more) =
      extent TextState.urlStep .inside tail := by
  refine extent_newline more fun final reaches => ?_
  rw [(urlFinal_closed_iff reaches).2 finished]
  rfl

/-- A url that does not have its end takes all there is. -/
theorem urlExtent_whole
    (unfinished : ¬∃ body, tail.take (extent TextState.urlStep .inside tail) =
      body ++ [Byte.closeParen] ∧ Bytes.endsEscaping body = false) :
    extent TextState.urlStep .inside tail = tail.length := by
  refine extent_eq_length fun final reaches byte => ?_
  cases final with
  | inside =>
    rw [TextState.urlStep]
    split
    next => exact Option.some_ne_none _
    next => split <;> exact Option.some_ne_none _
  | escape => exact Option.some_ne_none _
  | closed => exact absurd ((urlFinal_closed_iff reaches).1 rfl) unfinished

end Urls

theorem closed_of_commentStep {state : CommentState} {byte : UInt8}
    (closes : state.step byte = some .closed) : state = .asterisk ∧ byte = Byte.slash := by
  cases state with
  | inside =>
    rw [CommentState.step] at closes
    split at closes <;> exact absurd (Option.some.inj closes) (by simp)
  | asterisk =>
    refine ⟨rfl, ?_⟩
    by_contra other
    rw [CommentState.step, if_neg other] at closes
    split at closes <;> exact absurd (Option.some.inj closes) (by simp)
  | closed => exact absurd closes.symm (Option.some_ne_none _)

theorem asterisk_of_commentStep {state : CommentState} {byte : UInt8}
    (stars : state.step byte = some .asterisk) : byte = Byte.asterisk := by
  by_contra other
  cases state with
  | inside =>
    rw [CommentState.step, if_neg other] at stars
    exact absurd (Option.some.inj stars) (by simp)
  | asterisk =>
    rw [CommentState.step, if_neg other] at stars
    split at stars <;> exact absurd (Option.some.inj stars) (by simp)
  | closed => exact absurd stars.symm (Option.some_ne_none _)

/-- A comment is closed by its two bytes. -/
theorem commentFinal_closed_iff {bytes : Bytes} {final : CommentState}
    (reaches : bytes.foldlM CommentState.step .inside = some final) :
    final = .closed ↔ ∃ body, bytes = body ++ utf8 "*/" := by
  constructor
  · rintro rfl
    rcases List.eq_nil_or_concat bytes with rfl | ⟨front, last, rfl⟩
    · exact absurd (Option.some.inj reaches) (by simp)
    rw [List.concat_eq_append] at reaches ⊢
    obtain ⟨state, read, closes⟩ := foldlM_concat.1 reaches
    obtain ⟨rfl, rfl⟩ := closed_of_commentStep closes
    rcases List.eq_nil_or_concat front with rfl | ⟨body, star, rfl⟩
    · exact absurd (Option.some.inj read) (by simp)
    rw [List.concat_eq_append] at read ⊢
    obtain ⟨state, _, stars⟩ := foldlM_concat.1 read
    obtain rfl := asterisk_of_commentStep stars
    exact ⟨body, by rw [List.append_assoc]; rfl⟩
  · rintro ⟨body, rfl⟩
    exact final_of_comment reaches

section Comments

variable {tail : Bytes}

theorem commentExtent_newline (more : Bytes)
    (finished : ∃ body, tail.take (extent CommentState.step .inside tail) = body ++ utf8 "*/") :
    extent CommentState.step .inside (tail ++ Byte.newline :: more) =
      extent CommentState.step .inside tail := by
  refine extent_newline more fun final reaches => ?_
  rw [(commentFinal_closed_iff reaches).2 finished]
  rfl

theorem commentExtent_whole
    (unfinished : ¬∃ body, tail.take (extent CommentState.step .inside tail) =
      body ++ utf8 "*/") :
    extent CommentState.step .inside tail = tail.length := by
  refine extent_eq_length fun final reaches byte => ?_
  cases final with
  | inside => rw [CommentState.step]; split <;> exact Option.some_ne_none _
  | asterisk =>
    rw [CommentState.step]
    split
    next => exact Option.some_ne_none _
    next => split <;> exact Option.some_ne_none _
  | closed => exact absurd ((commentFinal_closed_iff reaches).1 rfl) unfinished

end Comments

end Texts

section Stretches

variable {goes : UInt8 → Bool}

theorem takeWhile_newline (bytes more : Bytes) (stops : goes Byte.newline = false) :
    (bytes ++ Byte.newline :: more).takeWhile goes = bytes.takeWhile goes := by
  rw [List.takeWhile_append]
  split
  next whole =>
    rw [List.takeWhile_cons, stops]
    exact (List.append_nil _).trans
      ((List.takeWhile_prefix goes).eq_of_length whole).symm
  next => rfl

theorem any_head?_newline (bytes more : Bytes) (stops : goes Byte.newline = false) :
    (bytes ++ Byte.newline :: more).head?.any goes = bytes.head?.any goes := by
  cases bytes with
  | nil => exact stops
  | cons byte rest => rfl

theorem head?_newline_iff {byte : UInt8} (bytes more : Bytes) (other : Byte.newline ≠ byte) :
    (bytes ++ Byte.newline :: more).head? = some byte ↔ bytes.head? = some byte := by
  cases bytes with
  | nil => exact ⟨fun is => absurd (Option.some.inj is) other, nofun⟩
  | cons first rest => exact Iff.rfl

theorem takeWhile_take_length (goes : UInt8 → Bool) (bytes : Bytes) {count : Nat}
    (within : (bytes.takeWhile goes).length ≤ count) :
    (bytes.take count).takeWhile goes = bytes.takeWhile goes := by
  rw [← List.take_takeWhile, List.take_of_length_le within]

theorem digitsExtent_newline (bytes more : Bytes) :
    digitsExtent (bytes ++ Byte.newline :: more) = digitsExtent bytes := by
  unfold digitsExtent
  rw [takeWhile_newline bytes more rfl]

theorem digitsExtent_take {bytes : Bytes} {count : Nat} (within : digitsExtent bytes ≤ count) :
    digitsExtent (bytes.take count) = digitsExtent bytes := by
  unfold digitsExtent at within ⊢
  rw [takeWhile_take_length Byte.isDigit bytes within]

theorem digitsExtent_le (bytes : Bytes) : digitsExtent bytes ≤ bytes.length :=
  (List.takeWhile_prefix _).length_le

theorem fractionExtent_newline (bytes more : Bytes) :
    fractionExtent (bytes ++ Byte.newline :: more) = fractionExtent bytes := by
  match bytes with
  | [] => cases more <;> rfl
  | [point] => exact if_neg fun fraction => absurd fraction.2 (by decide)
  | point :: digit :: rest =>
    have digits := digitsExtent_newline (digit :: rest) more
    rw [List.cons_append] at digits
    rw [List.cons_append, List.cons_append, fractionExtent, fractionExtent, digits]

theorem fractionExtent_take (bytes : Bytes) :
    fractionExtent (bytes.take (fractionExtent bytes)) = fractionExtent bytes := by
  match bytes with
  | [] => rfl
  | [point] => rfl
  | point :: digit :: rest =>
    by_cases fraction : point = Byte.dot ∧ Byte.isDigit digit = true
    · have some : digitsExtent (digit :: rest) = digitsExtent rest + 1 := by
        simp [digitsExtent, fraction.2]
      have digits := digitsExtent_take (Nat.le_refl (digitsExtent (digit :: rest)))
      rw [some, List.take_succ_cons] at digits
      rw [fractionExtent, if_pos fraction, some, List.take_succ_cons, List.take_succ_cons,
        fractionExtent, if_pos fraction, digits]
    · rw [fractionExtent, if_neg fraction]
      rfl

theorem fractionExtent_le (bytes : Bytes) : fractionExtent bytes ≤ bytes.length := by
  match bytes with
  | [] => exact Nat.le_refl 0
  | [point] => exact Nat.zero_le _
  | point :: digit :: rest =>
    rw [fractionExtent]
    split
    next => exact Nat.succ_le_succ (digitsExtent_le (digit :: rest))
    next => exact Nat.zero_le _

theorem fractionExtent_cons (byte : UInt8) (rest : Bytes) :
    fractionExtent (byte :: rest) =
      if byte = Byte.dot ∧ rest.head?.any Byte.isDigit then digitsExtent rest + 1 else 0 := by
  cases rest with
  | nil => simp [fractionExtent]
  | cons digit rest => rfl

theorem numberExtent_digit {byte : UInt8} (digit : Byte.isDigit byte = true) (rest : Bytes) :
    numberExtent (byte :: rest) = 1 + numberExtent rest := by
  have digits : digitsExtent (byte :: rest) = digitsExtent rest + 1 := by
    rw [digitsExtent, List.takeWhile_cons_of_pos digit]
    rfl
  rw [numberExtent, numberExtent, digits, List.drop_succ_cons]
  omega

theorem numberExtent_newline (bytes more : Bytes) :
    numberExtent (bytes ++ Byte.newline :: more) = numberExtent bytes := by
  unfold numberExtent
  rw [digitsExtent_newline, List.drop_append_of_le_length (digitsExtent_le bytes),
    fractionExtent_newline]

theorem numberExtent_take (bytes : Bytes) :
    numberExtent (bytes.take (numberExtent bytes)) = numberExtent bytes := by
  unfold numberExtent
  rw [digitsExtent_take (Nat.le_add_right _ _), List.drop_take, Nat.add_sub_cancel_left,
    fractionExtent_take]

theorem numberExtent_le (bytes : Bytes) : numberExtent bytes ≤ bytes.length := by
  have fraction := fractionExtent_le (bytes.drop (digitsExtent bytes))
  have digits := digitsExtent_le bytes
  rw [List.length_drop] at fraction
  unfold numberExtent
  omega

end Stretches

namespace Lexeme

/-- True of a lexeme whose bytes were cut short. -/
def Unfinished (first : UInt8) (rest : Bytes) (lexeme : Lexeme) : Prop :=
  lexeme.kind.Unfinished (lexeme.literal first rest)

/-- What a machine does at its own end and at a line feed. -/
structure Delimited (first : UInt8) (reads : Bytes → Lexeme) : Prop where
  /-- It takes no more bytes than there are. -/
  within : ∀ rest, (reads rest).extra ≤ rest.length
  /-- The bytes that it takes are taken alone too. -/
  alone : ∀ rest, reads (rest.take (reads rest).extra) = reads rest
  /-- It stops at a line feed as at the end, unless it was cut short there. -/
  newline : ∀ rest more, ¬(reads rest).Unfinished first rest →
    reads (rest ++ Byte.newline :: more) = reads rest
  /-- It is cut short at the end only. -/
  whole : ∀ rest, (reads rest).Unfinished first rest → (reads rest).extra = rest.length

section Delimited

variable {first : UInt8} {yes no : Bytes → Lexeme}

theorem Delimited.ite {condition : Prop} [Decidable condition] (one : Delimited first yes)
    (two : Delimited first no) :
    Delimited first fun rest => if condition then yes rest else no rest := by
  split
  · exact one
  · exact two

/-- What is never cut short stops at a line feed whatever it has taken. -/
theorem delimited_of_finished {reads : Bytes → Lexeme}
    (finished : ∀ rest, ¬(reads rest).Unfinished first rest)
    (within : ∀ rest, (reads rest).extra ≤ rest.length)
    (alone : ∀ rest, reads (rest.take (reads rest).extra) = reads rest)
    (newline : ∀ rest more, reads (rest ++ Byte.newline :: more) = reads rest) :
    Delimited first reads where
  within := within
  alone := alone
  newline rest more _ := newline rest more
  whole rest unfinished := absurd unfinished (finished rest)

theorem delimited_const {kind : Kind} (finished : ∀ literal, ¬kind.Unfinished literal) :
    Delimited first fun _ => ⟨kind, 0⟩ :=
  delimited_of_finished (fun _ => finished _) (fun _ => Nat.zero_le _) (fun _ => rfl)
    fun _ _ => rfl

/-- One kind if a certain byte follows, and another kind without it. -/
theorem delimited_pair {second : UInt8} {double single : Kind}
    (doubled : ∀ literal, ¬double.Unfinished literal)
    (alone : ∀ literal, ¬single.Unfinished literal) (other : Byte.newline ≠ second) :
    Delimited first fun rest =>
      if rest.head? = some second then ⟨double, 1⟩ else ⟨single, 0⟩ := by
  apply delimited_of_finished
  · intro rest
    split
    · exact doubled _
    · exact alone _
  · intro rest
    split
    next follows => exact List.length_pos_of_mem (List.mem_of_mem_head? follows)
    next => exact Nat.zero_le _
  · intro rest
    by_cases follows : rest.head? = some second
    · obtain ⟨tail, rfl⟩ := List.head?_eq_some_iff.1 follows
      simp
    · simp [follows]
  · intro rest more
    simp only [head?_newline_iff rest more other]

theorem delimited_name (state : NameState) :
    Delimited first fun rest => ⟨.ident, extent NameState.step state rest⟩ := by
  refine delimited_of_finished (fun _ => not_false) (fun rest => extent_le _ _ rest)
    (fun rest => ?_) fun rest more => ?_
  · rw [extent_take]
  · rw [extent_newline more fun final _ => nameStep_newline final]

theorem delimited_number : Delimited first fun rest => ⟨.number, numberExtent rest⟩ := by
  refine delimited_of_finished (fun _ => not_false) numberExtent_le (fun rest => ?_)
    fun rest more => ?_
  · rw [numberExtent_take]
  · rw [numberExtent_newline]

end Delimited

theorem ofHash_delimited {first : UInt8} : Delimited first ofHash := by
  apply delimited_of_finished
  · intro rest
    unfold ofHash
    dsimp only
    split <;> exact not_false
  · intro rest
    unfold ofHash
    dsimp only
    split
    next => exact ((List.takeWhile_prefix _).length_le.trans (List.length_take_le' 6 rest))
    next => exact Nat.zero_le _
  · intro rest
    generalize is : ofHash rest = lexeme
    unfold ofHash at is
    dsimp only at is
    split at is
    next color =>
      obtain rfl := is
      have digits : ((rest.take ((rest.take 6).takeWhile Byte.isHexDigit).length).take 6).takeWhile
          Byte.isHexDigit = (rest.take 6).takeWhile Byte.isHexDigit := by
        rw [List.take_take, Nat.min_comm, ← List.take_take]
        exact takeWhile_take_length Byte.isHexDigit (rest.take 6) (Nat.le_refl _)
      unfold ofHash
      dsimp only
      rw [digits, List.drop_take, Nat.sub_self]
      exact if_pos ⟨color.1, rfl⟩
    next =>
      obtain rfl := is
      rfl
  · intro rest more
    have digits : ((rest ++ Byte.newline :: more).take 6).takeWhile Byte.isHexDigit =
        (rest.take 6).takeWhile Byte.isHexDigit := by
      rw [← List.take_takeWhile, ← List.take_takeWhile, takeWhile_newline rest more rfl]
    have within : ((rest.take 6).takeWhile Byte.isHexDigit).length ≤ rest.length :=
      (List.takeWhile_prefix _).length_le.trans (List.length_take_le' 6 rest)
    unfold ofHash
    dsimp only
    rw [digits, List.drop_append_of_le_length within, any_head?_newline _ more rfl]

theorem nameExtent_take (bytes : Bytes) :
    nameExtent (bytes.take (nameExtent bytes)) = nameExtent bytes :=
  extent_take NameState.step .plain bytes

theorem nameExtent_newline (bytes more : Bytes) :
    nameExtent (bytes ++ Byte.newline :: more) = nameExtent bytes :=
  extent_newline more fun final _ => nameStep_newline final

theorem nameExtent_le (bytes : Bytes) : nameExtent bytes ≤ bytes.length :=
  extent_le NameState.step .plain bytes

theorem numberExtent_pos {byte : UInt8} (digit : Byte.isDigit byte = true) (rest : Bytes) :
    0 < numberExtent (byte :: rest) := by
  have some : 0 < digitsExtent (byte :: rest) := by simp [digitsExtent, digit]
  exact Nat.lt_of_lt_of_le some (Nat.le_add_right _ _)

theorem nameExtent_pos {byte : UInt8}
    (starts : Byte.isIdentStart byte = true ∨ byte = Byte.backslash)
    (rest : Bytes) : 0 < nameExtent (byte :: rest) := by
  have taken : ∃ next, NameState.plainStep byte = some next := by
    unfold NameState.plainStep
    rcases starts with starts | is
    · have part : Byte.isIdentPart byte = true := by simp [Byte.isIdentPart, starts]
      rw [part]
      split <;> exact ⟨_, rfl⟩
    · exact ⟨_, if_pos is⟩
  obtain ⟨next, taken⟩ := taken
  rw [nameExtent, extent, NameState.step, taken]
  exact Nat.succ_pos _

theorem ofHyphen_delimited {first : UInt8} : Delimited first ofHyphen := by
  apply delimited_of_finished
  · intro rest
    unfold ofHyphen
    repeat' split
    all_goals exact not_false
  · intro rest
    match rest with
    | [] => exact Nat.le_refl 0
    | byte :: rest =>
      rw [ofHyphen]
      split
      next => exact Nat.succ_le_succ (nameExtent_le rest)
      split
      next => exact numberExtent_le (byte :: rest)
      split
      next => exact nameExtent_le (byte :: rest)
      next => exact Nat.zero_le _
  · intro rest
    match rest with
    | [] => rfl
    | byte :: rest =>
      rw [ofHyphen]
      split
      next hyphen => rw [List.take_succ_cons, ofHyphen, if_pos hyphen, nameExtent_take]
      next other =>
        split
        next digit =>
          have number := numberExtent_take (byte :: rest)
          rw [List.take_cons (numberExtent_pos digit rest)] at number ⊢
          rw [ofHyphen, if_neg other, if_pos digit, number]
        next plain =>
          split
          next starts =>
            have name := nameExtent_take (byte :: rest)
            rw [List.take_cons (nameExtent_pos starts rest)] at name ⊢
            rw [ofHyphen, if_neg other, if_neg plain, if_pos starts, name]
          next => rfl
  · intro rest more
    match rest with
    | [] => rfl
    | byte :: rest =>
      have number := numberExtent_newline (byte :: rest) more
      have name := nameExtent_newline (byte :: rest) more
      rw [List.cons_append] at number name ⊢
      rw [ofHyphen, ofHyphen, number, name, nameExtent_newline]

/-- A comment is cut short if its own bytes do not end it. -/
theorem unfinished_comment_iff {tail : Bytes} {count : Nat} :
    Unfinished Byte.slash (Byte.asterisk :: tail) ⟨.comment, count + 1⟩ ↔
      ¬∃ body, tail.take count = body ++ utf8 "*/" := by
  refine not_congr (exists_congr fun body => ?_)
  change Byte.slash :: Byte.asterisk :: tail.take count =
    Byte.slash :: Byte.asterisk :: (body ++ utf8 "*/") ↔ _
  rw [List.cons_inj_right, List.cons_inj_right]

theorem ofSlash_star (tail : Bytes) :
    ofSlash (Byte.asterisk :: tail) = ⟨.comment, extent CommentState.step .inside tail + 1⟩ := rfl

theorem ofSlash_other {rest : Bytes} (other : rest.head? ≠ some Byte.asterisk) :
    ofSlash rest = ⟨.divide, 0⟩ :=
  if_neg other

theorem ofSlash_delimited : Delimited Byte.slash ofSlash := by
  have divided {rest : Bytes} (other : rest.head? ≠ some Byte.asterisk) :
      ¬(ofSlash rest).Unfinished Byte.slash rest := by
    rw [ofSlash_other other]
    exact not_false
  constructor
  · intro rest
    by_cases star : rest.head? = some Byte.asterisk
    · obtain ⟨tail, rfl⟩ := List.head?_eq_some_iff.1 star
      exact Nat.succ_le_succ (extent_le CommentState.step .inside tail)
    · rw [ofSlash_other star]
      exact Nat.zero_le _
  · intro rest
    by_cases star : rest.head? = some Byte.asterisk
    · obtain ⟨tail, rfl⟩ := List.head?_eq_some_iff.1 star
      rw [ofSlash_star, List.take_succ_cons, ofSlash_star, extent_take]
    · rw [ofSlash_other star]
      rfl
  · intro rest more finished
    by_cases star : rest.head? = some Byte.asterisk
    · obtain ⟨tail, rfl⟩ := List.head?_eq_some_iff.1 star
      rw [ofSlash_star, unfinished_comment_iff, not_not] at finished
      rw [List.cons_append, ofSlash_star, ofSlash_star, commentExtent_newline more finished]
    · have still : (rest ++ Byte.newline :: more).head? ≠ some Byte.asterisk :=
        fun is => star ((head?_newline_iff rest more (by decide)).1 is)
      rw [ofSlash_other star, ofSlash_other still]
  · intro rest unfinished
    by_cases star : rest.head? = some Byte.asterisk
    · obtain ⟨tail, rfl⟩ := List.head?_eq_some_iff.1 star
      rw [ofSlash_star, unfinished_comment_iff] at unfinished
      exact congrArg (· + 1) (commentExtent_whole unfinished)
    · exact absurd unfinished (divided star)

/-- A quote does not stand in the way of a backslash. -/
theorem unfinished_string_iff {quote : UInt8} (isQuote : Byte.isQuote quote = true) {rest : Bytes}
    {count : Nat} :
    Unfinished quote rest ⟨.string, count⟩ ↔ Bytes.endsEscaping (rest.take count) = true := by
  have plain := ne_backslash_of_isQuote isQuote
  change Bytes.endsEscaping ([] ++ quote :: rest.take count) = true ↔ _
  rw [endsEscaping_append plain]

theorem string_delimited {quote : UInt8} (isQuote : Byte.isQuote quote = true) :
    Delimited quote fun rest => ⟨.string, extent (TextState.stringStep quote) .inside rest⟩ := by
  have escapes {rest : Bytes} {final : TextState}
      (reaches : (rest.take (extent (TextState.stringStep quote) .inside rest)).foldlM
        (TextState.stringStep quote) .inside = some final) :
      final.isEscape =
        Bytes.endsEscaping (rest.take (extent (TextState.stringStep quote) .inside rest)) :=
    isEscape_final (fun _ _ _ => stringStep_escapes isQuote) reaches
  constructor
  · exact fun rest => extent_le _ _ rest
  · intro rest
    rw [extent_take]
  · intro rest more finished
    rw [unfinished_string_iff isQuote] at finished
    have refused (final : TextState)
        (reaches : (rest.take (extent (TextState.stringStep quote) .inside rest)).foldlM
          (TextState.stringStep quote) .inside = some final) :
        TextState.stringStep quote final Byte.newline = none := by
      cases final with
      | inside =>
        have other : Byte.newline ≠ quote := by rintro rfl; exact absurd isQuote (by decide)
        rw [TextState.stringStep, if_neg other, if_pos rfl]
      | escape => exact absurd (escapes reaches).symm finished
      | closed => rfl
    rw [extent_newline more refused]
  · intro rest unfinished
    rw [unfinished_string_iff isQuote] at unfinished
    refine extent_eq_length fun final reaches byte => ?_
    have escaping := (escapes reaches).trans unfinished
    cases final with
    | inside => exact absurd escaping nofun
    | escape => exact Option.some_ne_none _
    | closed => exact absurd escaping nofun

section Urls

variable {first : UInt8} {rest word tail : Bytes}

theorem opensUrl_split (opens : opensUrl rest = true) :
    ∃ tail, rest = Byte.openParen :: tail ∧
      (tail.dropWhile Byte.isWhiteSpace).head?.any Byte.isQuote = false := by
  obtain ⟨paren, unquoted⟩ := Bool.and_eq_true_iff.1 opens
  obtain ⟨tail, rfl⟩ := List.head?_eq_some_iff.1 (eq_of_beq paren)
  exact ⟨tail, rfl, by simpa using unquoted⟩

theorem opensUrl_cons : opensUrl (Byte.openParen :: tail) =
    !(tail.dropWhile Byte.isWhiteSpace).head?.any Byte.isQuote := rfl

/-- No quote comes first in the front of bytes in which none comes first. -/
theorem unquoted_take (count : Nat)
    (unquoted : (tail.dropWhile Byte.isWhiteSpace).head?.any Byte.isQuote = false) :
    ((tail.take count).dropWhile Byte.isWhiteSpace).head?.any Byte.isQuote = false := by
  have split : (tail.take count ++ tail.drop count).dropWhile Byte.isWhiteSpace = _ :=
    List.dropWhile_append
  rw [List.take_append_drop] at split
  cases front : (tail.take count).dropWhile Byte.isWhiteSpace with
  | nil => rfl
  | cons byte back =>
    rw [front] at split
    rw [split] at unquoted
    exact unquoted

/-- A word with a parenthesis that it does not take itself, and nothing quoted behind. -/
structure StartsUrl (first : UInt8) (word : Bytes) : Prop where
  url : Bytes.sameIgnoringCase (first :: word) (utf8 "url") = true
  stops : ∀ tail, nameExtent (word ++ Byte.openParen :: tail) = word.length

theorem ofWord_of_startsUrl (starts : StartsUrl first word)
    (unquoted : (tail.dropWhile Byte.isWhiteSpace).head?.any Byte.isQuote = false) :
    ofWord first (word ++ Byte.openParen :: tail) =
      ⟨.uri, word.length + 1 + extent TextState.urlStep .inside tail⟩ := by
  have opens : opensUrl (Byte.openParen :: tail) = true := by
    rw [opensUrl_cons, unquoted]
    rfl
  unfold ofWord
  dsimp only
  rw [starts.stops, List.take_left, List.drop_left, starts.url, opens]
  rfl

/-- A word is a name, or a url with what comes before its parenthesis. -/
theorem ofWord_cases (first : UInt8) (rest : Bytes) :
    (∃ word tail, rest = word ++ Byte.openParen :: tail ∧ StartsUrl first word ∧
      (tail.dropWhile Byte.isWhiteSpace).head?.any Byte.isQuote = false) ∨
    (Bytes.sameIgnoringCase (first :: rest.take (nameExtent rest)) (utf8 "url") &&
      opensUrl (rest.drop (nameExtent rest))) = false := by
  rcases Bool.eq_false_or_eq_true (Bytes.sameIgnoringCase (first :: rest.take (nameExtent rest))
    (utf8 "url") && opensUrl (rest.drop (nameExtent rest))) with both | none
  · obtain ⟨url, opens⟩ := Bool.and_eq_true_iff.1 both
    obtain ⟨tail, split, unquoted⟩ := opensUrl_split opens
    obtain ⟨final, reaches, refused⟩ := extent_maximal NameState.step .plain rest
    refine .inl ⟨_, tail, ?_, ⟨url, fun tail => ?_⟩, unquoted⟩
    · rw [← split, List.take_append_drop]
    · refine extent_of_refused _ reaches fun byte is => refused byte ?_
      change byte ∈ (rest.drop (nameExtent rest)).head?
      rw [split]
      exact is
  · exact .inr none

theorem ofWord_name
    (none : (Bytes.sameIgnoringCase (first :: rest.take (nameExtent rest)) (utf8 "url") &&
      opensUrl (rest.drop (nameExtent rest))) = false) :
    ofWord first rest = ⟨.ident, nameExtent rest⟩ := by
  unfold ofWord
  dsimp only
  rw [none]
  rfl

theorem taken_url (count : Nat) :
    (word ++ Byte.openParen :: tail).take (word.length + 1 + count) =
      word ++ Byte.openParen :: tail.take count := by
  rw [Nat.add_assoc, List.take_length_add_append, Nat.add_comm, List.take_succ_cons]

/-- Only what is in the parentheses decides whether a url is cut short. -/
theorem unfinished_url_iff {count : Nat} :
    Unfinished first (word ++ Byte.openParen :: tail) ⟨.uri, word.length + 1 + count⟩ ↔
      ¬∃ body, tail.take count = body ++ [Byte.closeParen] ∧
        Bytes.endsEscaping body = false := by
  have escapes (body : Bytes) : Bytes.endsEscaping (first :: (word ++ Byte.openParen :: body)) =
      Bytes.endsEscaping body := by
    change Bytes.endsEscaping (first :: word ++ Byte.openParen :: body) = _
    exact endsEscaping_append (by decide) body
  refine not_congr ?_
  change (∃ body, first :: (word ++ Byte.openParen :: tail).take _ = _ ∧ _) ↔ _
  rw [taken_url]
  generalize tail.take count = inner
  constructor
  · rintro ⟨body, written, plain⟩
    rcases List.eq_nil_or_concat inner with rfl | ⟨front, last, rfl⟩
    · have split : first :: word ++ [Byte.openParen] = body ++ [Byte.closeParen] := written
      have ends := (List.append_inj' split rfl).2
      exact absurd (List.cons.inj ends).1 (by decide)
    · rw [List.concat_eq_append] at written ⊢
      have split : first :: (word ++ Byte.openParen :: front) ++ [last] =
          body ++ [Byte.closeParen] := by
        rw [← written]
        simp
      obtain ⟨rfl, ends⟩ := List.append_inj' split rfl
      rw [escapes] at plain
      exact ⟨front, by rw [ends], plain⟩
  · rintro ⟨body, rfl, plain⟩
    exact ⟨first :: (word ++ Byte.openParen :: body), by simp, (escapes body).trans plain⟩

theorem opensUrl_newline (more : Bytes)
    (further : opensUrl rest = true → rest.tail.dropWhile Byte.isWhiteSpace ≠ []) :
    opensUrl (rest ++ Byte.newline :: more) = opensUrl rest := by
  cases rest with
  | nil => rfl
  | cons byte tail => exact opensUrl_append _ (List.cons_ne_nil byte tail) further

/-- A url that has its end opens as one before a line feed too: its parenthesis is not white space,
so the line feed is not the first byte that matters. -/
theorem unquoted_newline (more : Bytes) {count : Nat}
    (unquoted : (tail.dropWhile Byte.isWhiteSpace).head?.any Byte.isQuote = false)
    (finished : ∃ body, tail.take count = body ++ [Byte.closeParen] ∧
      Bytes.endsEscaping body = false) :
    ((tail ++ Byte.newline :: more).dropWhile Byte.isWhiteSpace).head?.any Byte.isQuote =
      false := by
  have some : tail.dropWhile Byte.isWhiteSpace ≠ [] := by
    obtain ⟨body, written, _⟩ := finished
    intro blank
    have member : Byte.closeParen ∈ tail :=
      List.mem_of_mem_take (written ▸ List.mem_append_right body (List.mem_singleton_self _))
    exact absurd (List.dropWhile_eq_nil_iff.1 blank _ member) (by decide)
  have same : opensUrl (Byte.openParen :: tail ++ Byte.newline :: more) = _ :=
    opensUrl_newline more fun _ => some
  rw [List.cons_append, opensUrl_cons, opensUrl_cons, unquoted] at same
  simpa using same

/-- A word that is no url is none in its own bytes. -/
theorem ofWord_name_take
    (none : (Bytes.sameIgnoringCase (first :: rest.take (nameExtent rest)) (utf8 "url") &&
      opensUrl (rest.drop (nameExtent rest))) = false) :
    ofWord first (rest.take (ofWord first rest).extra) = ofWord first rest := by
  have alone := nameExtent_take rest
  rw [ofWord_name none]
  dsimp only
  rw [ofWord_name, alone]
  rw [alone, List.drop_take, Nat.sub_self, List.take_zero]
  exact Bool.and_false _

/-- A word that is no url is none before a line feed. -/
theorem ofWord_name_newline (more : Bytes)
    (none : (Bytes.sameIgnoringCase (first :: rest.take (nameExtent rest)) (utf8 "url") &&
      opensUrl (rest.drop (nameExtent rest))) = false) :
    ofWord first (rest ++ Byte.newline :: more) = ofWord first rest := by
  have name := nameExtent_newline rest more
  have spelled : (rest ++ Byte.newline :: more).take (nameExtent rest) =
      rest.take (nameExtent rest) :=
    List.take_append_of_le_length (nameExtent_le rest)
  have after : (rest ++ Byte.newline :: more).drop (nameExtent rest) =
      rest.drop (nameExtent rest) ++ Byte.newline :: more :=
    List.drop_append_of_le_length (nameExtent_le rest)
  rw [ofWord_name none, ofWord_name, name]
  rw [name, spelled, after]
  rcases Bool.and_eq_false_iff.1 none with other | closed
  · rw [other, Bool.false_and]
  · rw [opensUrl_newline more fun opens => absurd (opens.symm.trans closed) (by simp), closed,
      Bool.and_false]

end Urls

theorem ofWord_delimited (first : UInt8) : Delimited first (ofWord first) := by
  constructor
  · intro rest
    rcases ofWord_cases first rest with ⟨word, tail, rfl, starts, unquoted⟩ | none
    · have inner := extent_le TextState.urlStep .inside tail
      rw [ofWord_of_startsUrl starts unquoted, List.length_append, List.length_cons]
      dsimp only
      omega
    · rw [ofWord_name none]
      exact nameExtent_le rest
  · intro rest
    rcases ofWord_cases first rest with ⟨word, tail, rfl, starts, unquoted⟩ | none
    · rw [ofWord_of_startsUrl starts unquoted]
      dsimp only
      rw [taken_url, ofWord_of_startsUrl starts (unquoted_take _ unquoted), extent_take]
    · exact ofWord_name_take none
  · intro rest more finished
    rcases ofWord_cases first rest with ⟨word, tail, rfl, starts, unquoted⟩ | none
    · rw [ofWord_of_startsUrl starts unquoted, unfinished_url_iff, not_not] at finished
      have still := unquoted_newline more unquoted finished
      rw [List.append_assoc, List.cons_append, ofWord_of_startsUrl starts still,
        ofWord_of_startsUrl starts unquoted, urlExtent_newline more finished]
    · exact ofWord_name_newline more none
  · intro rest unfinished
    rcases ofWord_cases first rest with ⟨word, tail, rfl, starts, unquoted⟩ | none
    · rw [ofWord_of_startsUrl starts unquoted] at unfinished ⊢
      rw [unfinished_url_iff] at unfinished
      dsimp only
      rw [urlExtent_whole unfinished, List.length_append, List.length_cons, Nat.add_assoc,
        Nat.add_comm 1]
    · rw [ofWord_name none] at unfinished
      exact absurd unfinished not_false

/-- Punctuation is never cut short. -/
theorem finished_of_spelling {kind : Kind} {spelling : Bytes}
    (spelled : kind.spelling? = some spelling) (literal : Bytes) : ¬kind.Unfinished literal := by
  intro unfinished
  cases kind <;> first | exact unfinished | exact absurd spelled.symm (Option.some_ne_none _)

/-- Every token ends at a line feed as at the end of the input. -/
theorem ofFirst_delimited (first : UInt8) : Delimited first (ofFirst first) := by
  have free {kind : Kind} {spelling : Bytes} (spelled : kind.spelling? = some spelling) :=
    finished_of_spelling spelled
  unfold ofFirst
  split
  next kind found =>
    exact delimited_const (free (Kind.spelling?_ofPunctuation? first kind found))
  next =>
    refine Delimited.ite (delimited_pair (free rfl) (fun _ => not_false) (by decide)) <|
      Delimited.ite (delimited_pair (free rfl) (free rfl) (by decide)) <|
      ofHash_delimited.ite <| ofHyphen_delimited.ite <| (delimited_name .escape).ite ?_
    split
    next slash => exact slash ▸ ofSlash_delimited
    split
    next isQuote => exact string_delimited isQuote
    exact (ofWord_delimited first).ite <|
      delimited_number.ite <| delimited_const fun _ => not_false

end Lexeme

end CssSyntax

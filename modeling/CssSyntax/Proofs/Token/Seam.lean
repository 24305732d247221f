import CssSyntax.Proofs.Relocation.Place
import CssSyntax.Proofs.Token.Spelling

/-! Two sources put together. Where the first ends with a token that cannot go on, its own tokens
come first, and those of the second follow as if they were read on their own. -/

namespace CssSyntax

/-- True of a byte that no number, color or name can have: what is read up to such a byte does not
depend on the bytes after it. -/
def Byte.isBoundary (byte : UInt8) : Bool := !Byte.isHexDigit byte && byte != Byte.dot

namespace Byte

variable {byte : UInt8}

theorem isHexDigit_of_boundary (boundary : isBoundary byte = true) : isHexDigit byte = false := by
  simpa using (Bool.and_eq_true_iff.1 boundary).1

theorem isDigit_of_boundary (boundary : isBoundary byte = true) : isDigit byte = false := by
  have none := isHexDigit_of_boundary boundary
  unfold isHexDigit at none
  simp only [Bool.or_eq_false_iff] at none
  exact none.1.1

theorem ne_dot_of_boundary (boundary : isBoundary byte = true) : byte ≠ dot :=
  bne_iff_ne.1 (Bool.and_eq_true_iff.1 boundary).2

end Byte

theorem extent_append {σ : Type} {step : σ → UInt8 → Option σ} {state : σ} {bytes : Bytes}
    (more : Bytes) (refused : extent step state bytes < bytes.length) :
    extent step state (bytes ++ more) = extent step state bytes := by
  induction bytes generalizing state with
  | nil => exact absurd refused (Nat.not_lt_zero _)
  | cons byte rest ih =>
    rw [List.cons_append, extent]
    rw [extent] at refused ⊢
    split
    next => rfl
    next next is =>
      rw [is] at refused
      rw [ih (Nat.lt_of_succ_lt_succ refused)]

section Stretches

variable {goes : UInt8 → Bool} {bytes : Bytes} {byte : UInt8}

theorem takeWhile_shorter (member : byte ∈ bytes) (stops : goes byte = false) :
    (bytes.takeWhile goes).length < bytes.length := by
  have front := List.takeWhile_prefix (l := bytes) goes
  refine Nat.lt_of_le_of_ne front.length_le fun whole => ?_
  have all := List.takeWhile_eq_self_iff.1 (front.eq_of_length whole)
  exact Bool.false_ne_true (stops.symm.trans (all byte member))

theorem takeWhile_append_of_mem (more : Bytes) (member : byte ∈ bytes) (stops : goes byte = false) :
    (bytes ++ more).takeWhile goes = bytes.takeWhile goes := by
  rw [List.takeWhile_append, if_neg (Nat.ne_of_lt (takeWhile_shorter member stops))]

end Stretches

/-- After so many of the bytes there is one that no number, color or name can have. -/
def Bounded (bytes : Bytes) (count : Nat) : Prop :=
  ∃ byte ∈ bytes.drop count, Byte.isBoundary byte = true

namespace Bounded

variable {bytes : Bytes} {count : Nat}

theorem lt_length (bounded : Bounded bytes count) : count < bytes.length := by
  obtain ⟨byte, member, _⟩ := bounded
  have some := List.length_pos_of_mem member
  rw [List.length_drop] at some
  omega

theorem mono {fewer : Nat} (bounded : Bounded bytes count) (less : fewer ≤ count) :
    Bounded bytes fewer := by
  obtain ⟨byte, member, boundary⟩ := bounded
  exact ⟨byte, (List.drop_sublist_drop_left bytes less).subset member, boundary⟩

theorem drop {first : Nat} (bounded : Bounded bytes (first + count)) :
    Bounded (bytes.drop first) count := by
  obtain ⟨byte, member, boundary⟩ := bounded
  exact ⟨byte, by rwa [List.drop_drop], boundary⟩

end Bounded

theorem digitsExtent_append {bytes : Bytes} (more : Bytes)
    (bounded : Bounded bytes (digitsExtent bytes)) :
    digitsExtent (bytes ++ more) = digitsExtent bytes := by
  obtain ⟨byte, member, boundary⟩ := bounded
  have stops := Byte.isDigit_of_boundary boundary
  unfold digitsExtent
  rw [takeWhile_append_of_mem more (List.mem_of_mem_drop member) stops]

theorem fractionExtent_append {bytes : Bytes} (more : Bytes)
    (bounded : Bounded bytes (fractionExtent bytes)) :
    fractionExtent (bytes ++ more) = fractionExtent bytes := by
  match bytes with
  | [] => exact absurd bounded.lt_length (Nat.not_lt_zero _)
  | [point] =>
    -- A lone point could still get its digits, but it is no boundary.
    obtain ⟨byte, member, boundary⟩ := bounded
    obtain rfl := List.mem_singleton.1 (List.mem_of_mem_drop member)
    cases more with
    | nil => rfl
    | cons digit rest => exact if_neg fun fraction => Byte.ne_dot_of_boundary boundary fraction.1
  | point :: digit :: rest =>
    unfold fractionExtent at bounded ⊢
    rw [List.cons_append, List.cons_append]
    dsimp only at bounded ⊢
    split
    next fraction =>
      rw [if_pos fraction, Nat.add_comm] at bounded
      have tail : Bounded (digit :: rest) (digitsExtent (digit :: rest)) := bounded.drop
      rw [← List.cons_append, digitsExtent_append more tail]
    next => rfl

theorem numberExtent_append {bytes : Bytes} (more : Bytes)
    (bounded : Bounded bytes (numberExtent bytes)) :
    numberExtent (bytes ++ more) = numberExtent bytes := by
  unfold numberExtent at bounded ⊢
  have digits := digitsExtent_append more (bounded.mono (Nat.le_add_right _ _))
  have within := Nat.le_of_lt (bounded.mono (Nat.le_add_right _ _)).lt_length
  rw [digits, List.drop_append_of_le_length within, fractionExtent_append more bounded.drop]

namespace Lexeme

/-- What is read up to a boundary does not depend on the bytes after it. -/
def Settled (reads : Bytes → Lexeme) : Prop :=
  ∀ rest more, Bounded rest (reads rest).extra → reads (rest ++ more) = reads rest

theorem Settled.ite {condition : Prop} [Decidable condition] {yes no : Bytes → Lexeme}
    (first : Settled yes) (second : Settled no) :
    Settled fun rest => if condition then yes rest else no rest := by
  split
  · exact first
  · exact second

theorem settled_const (lexeme : Lexeme) : Settled fun _ => lexeme := fun _ _ _ => rfl

theorem settled_extent {σ : Type} (kind : Kind) (step : σ → UInt8 → Option σ) (state : σ) :
    Settled fun rest => ⟨kind, extent step state rest⟩ := by
  intro rest more bounded
  dsimp only at bounded ⊢
  rw [extent_append more bounded.lt_length]

theorem settled_number : Settled fun rest => ⟨.number, numberExtent rest⟩ := by
  intro rest more bounded
  dsimp only at bounded ⊢
  rw [numberExtent_append more bounded]

theorem head?_append {rest : Bytes} {count : Nat} (more : Bytes) (bounded : Bounded rest count) :
    (rest ++ more).head? = rest.head? := by
  have some := Nat.lt_of_le_of_lt (Nat.zero_le count) bounded.lt_length
  exact List.head?_append_of_ne_nil rest (List.length_pos_iff.1 some)

theorem ofColon_settled : Settled ofColon := by
  intro rest more bounded
  unfold ofColon
  rw [head?_append more bounded]

theorem ofCaret_settled : Settled ofCaret := by
  intro rest more bounded
  unfold ofCaret
  rw [head?_append more bounded]

theorem ofHash_settled : Settled ofHash := by
  intro rest more bounded
  obtain ⟨byte, member, boundary⟩ := bounded
  have among := List.mem_of_mem_drop member
  have stops := Byte.isHexDigit_of_boundary boundary
  have digits : ((rest ++ more).take 6).takeWhile Byte.isHexDigit =
      (rest.take 6).takeWhile Byte.isHexDigit := by
    rw [← List.take_takeWhile, ← List.take_takeWhile, takeWhile_append_of_mem more among stops]
  have short : ((rest.take 6).takeWhile Byte.isHexDigit).length < rest.length := by
    rw [← List.take_takeWhile]
    exact Nat.lt_of_le_of_lt (List.length_take_le' _ _) (takeWhile_shorter among stops)
  have left : rest.drop ((rest.take 6).takeWhile Byte.isHexDigit).length ≠ [] :=
    fun none => Nat.not_le_of_lt short (List.drop_eq_nil_iff.1 none)
  unfold ofHash
  dsimp only
  rw [digits, List.drop_append_of_le_length (Nat.le_of_lt short),
    List.head?_append_of_ne_nil _ left]

theorem ofHyphen_settled : Settled ofHyphen := by
  intro rest more bounded
  match rest with
  | [] => exact absurd bounded.lt_length (Nat.not_lt_zero _)
  | byte :: rest =>
    unfold ofHyphen at bounded ⊢
    rw [List.cons_append]
    dsimp only at bounded ⊢
    split
    next is =>
      rw [if_pos is] at bounded
      rw [nameExtent, extent_append more (Nat.lt_of_succ_lt_succ bounded.lt_length)]
      rfl
    next other =>
      rw [if_neg other] at bounded
      split
      next digit =>
        rw [if_pos digit] at bounded
        rw [← List.cons_append, numberExtent_append more bounded]
      next plain =>
        rw [if_neg plain] at bounded
        split
        next name =>
          rw [if_pos name] at bounded
          rw [← List.cons_append, nameExtent, extent_append more bounded.lt_length]
          rfl
        next => rfl

theorem ofSlash_settled : Settled ofSlash := by
  intro rest more bounded
  unfold ofSlash at bounded ⊢
  rw [head?_append more bounded]
  split
  next star =>
    obtain ⟨tail, rfl⟩ := List.head?_eq_some_iff.1 star
    rw [if_pos star] at bounded
    have within : extent CommentState.step .inside tail < tail.length :=
      Nat.lt_of_succ_lt_succ bounded.lt_length
    rw [List.cons_append, List.tail_cons, List.tail_cons, extent_append more within]
  next => rfl

/-- White space never ends a url. -/
theorem urlExtent_blank {bytes : Bytes} (blank : ∀ byte ∈ bytes, Byte.isWhiteSpace byte = true) :
    extent TextState.urlStep .inside bytes = bytes.length := by
  induction bytes with
  | nil => rfl
  | cons byte rest ih =>
    obtain ⟨white, later⟩ := List.forall_mem_cons.1 blank
    have unclosed : byte ≠ Byte.closeParen := by rintro rfl; exact absurd white (by decide)
    have plain : byte ≠ Byte.backslash := by rintro rfl; exact absurd white (by decide)
    have goes : TextState.urlStep .inside byte = some .inside := by
      simp only [TextState.urlStep, if_neg unclosed, if_neg plain]
    rw [extent, goes]
    exact congrArg (· + 1) (ih later)

theorem opensUrl_append {bytes : Bytes} (more : Bytes) (some : bytes ≠ [])
    (further : opensUrl bytes = true → bytes.tail.dropWhile Byte.isWhiteSpace ≠ []) :
    opensUrl (bytes ++ more) = opensUrl bytes := by
  obtain ⟨byte, tail, rfl⟩ := List.exists_cons_of_ne_nil some
  unfold opensUrl at further ⊢
  rw [List.cons_append, List.head?_cons, List.head?_cons, List.tail_cons, List.tail_cons]
  cases rest : tail.dropWhile Byte.isWhiteSpace with
  | nil =>
    have shut : (Option.some byte == Option.some Byte.openParen) = false := by
      refine Bool.eq_false_iff.2 fun opens => further ?_ rest
      rw [List.head?_cons, opens, List.tail_cons, rest]
      rfl
    rw [shut, Bool.false_and, Bool.false_and]
  | cons mark later =>
    have going : (tail ++ more).dropWhile Byte.isWhiteSpace = mark :: later ++ more := by
      rw [List.dropWhile_append, rest]
      rfl
    rw [going]
    rfl

theorem ofWord_settled (first : UInt8) : Settled (ofWord first) := by
  intro rest more bounded
  have name_le : nameExtent rest ≤ (ofWord first rest).extra := by
    unfold ofWord
    dsimp only
    split
    next => exact Nat.le_trans (Nat.le_add_right _ 1) (Nat.le_add_right _ _)
    next => exact Nat.le_refl _
  have within := (bounded.mono name_le).lt_length
  have name : nameExtent (rest ++ more) = nameExtent rest := extent_append more within
  have after : (rest ++ more).drop (nameExtent rest) = rest.drop (nameExtent rest) ++ more :=
    List.drop_append_of_le_length (Nat.le_of_lt within)
  have spelled : (rest ++ more).take (nameExtent rest) = rest.take (nameExtent rest) :=
    List.take_append_of_le_length (Nat.le_of_lt within)
  have some : rest.drop (nameExtent rest) ≠ [] :=
    fun none => Nat.not_le_of_lt within (List.drop_eq_nil_iff.1 none)
  unfold ofWord at bounded ⊢
  dsimp only at bounded ⊢
  rw [name, after, spelled]
  cases word : Bytes.sameIgnoringCase (first :: rest.take (nameExtent rest)) (utf8 "url") with
  | false => rfl
  | true =>
    rw [word, Bool.true_and] at bounded
    rw [Bool.true_and, Bool.true_and]
    -- The url ends before the boundary, so it is not white space only.
    have ends (opens : opensUrl (rest.drop (nameExtent rest)) = true) :
        extent TextState.urlStep .inside (rest.drop (nameExtent rest)).tail <
          (rest.drop (nameExtent rest)).tail.length := by
      rw [if_pos opens] at bounded
      have whole := bounded.lt_length
      dsimp only at whole
      rw [List.length_tail, List.length_drop]
      omega
    have same : opensUrl (rest.drop (nameExtent rest) ++ more) =
        opensUrl (rest.drop (nameExtent rest)) := by
      refine opensUrl_append more some fun opens none => ?_
      exact Nat.ne_of_lt (ends opens) (urlExtent_blank (List.dropWhile_eq_nil_iff.1 none))
    rw [same]
    split
    next opens => rw [List.tail_append_of_ne_nil some, extent_append more (ends opens)]
    next => rfl

theorem ofFirst_settled (first : UInt8) : Settled (ofFirst first) := by
  unfold ofFirst
  split
  next kind _ => exact settled_const ⟨kind, 0⟩
  next =>
    refine ofCaret_settled.ite <| ofColon_settled.ite <| ofHash_settled.ite <|
      ofHyphen_settled.ite <| (settled_extent .ident _ _).ite <| ofSlash_settled.ite <|
      (settled_extent .string _ _).ite <| (ofWord_settled first).ite <|
      settled_number.ite (settled_const ⟨.illegal, 0⟩)

end Lexeme

/-- True of a comment that has both its delimiters. -/
def Token.Terminated (token : Token) : Prop :=
  ∃ body, token.literal = utf8 "/*" ++ body ++ utf8 "*/"

/-- True of a token that is over with its last byte: one that seals, or a comment that has its
end. -/
def Token.Shut (token : Token) : Prop :=
  token.seals = true ∨ token.kind = .comment ∧ token.Terminated

/-- A token that seals is written in one way. -/
theorem Token.literal_of_seals {token : Token} (spelled : token.Spelled)
    (seals : token.seals = true) : token.literal = [0x7d] ∨ token.literal = [0x3b] := by
  rcases Bool.or_eq_true_iff.1 seals with closing | semicolon
  · exact .inl (spelled.fixed _ (by rw [beq_iff_eq.1 closing]; rfl))
  · exact .inr (spelled.fixed _ (by rw [beq_iff_eq.1 semicolon]; rfl))

theorem Token.Shut.has_boundary {token : Token} (shut : token.Shut) (spelled : token.Spelled) :
    ∃ byte ∈ token.literal, Byte.isBoundary byte = true := by
  rcases shut with seals | ⟨_, body, comment⟩
  · rcases token.literal_of_seals spelled seals with brace | semicolon
    · exact ⟨0x7d, brace ▸ List.mem_singleton_self _, by decide⟩
    · exact ⟨0x3b, semicolon ▸ List.mem_singleton_self _, by decide⟩
  · refine ⟨Byte.slash, ?_, by decide⟩
    rw [comment]
    exact List.mem_append_right _ (by decide)

theorem Token.Shut.kind_ne_eof {token : Token} (shut : token.Shut) : token.kind ≠ .eof := by
  rintro ended
  rcases shut with seals | ⟨comment, _⟩
  · exact Bool.false_ne_true ((Token.seals_of_kind ended rfl).symm.trans seals)
  · exact absurd (ended.symm.trans comment) nofun

section Automata

variable {σ : Type} {step : σ → UInt8 → Option σ} {state final : σ} {bytes : Bytes}

/-- An automaton that takes all bytes is somewhere after them. -/
theorem exists_final_of_extent (whole : extent step state bytes = bytes.length) :
    ∃ final, bytes.foldlM step state = some final := by
  induction bytes generalizing state with
  | nil => exact ⟨state, rfl⟩
  | cons byte rest ih =>
    rw [extent] at whole
    rw [List.foldlM_cons]
    split at whole
    next => exact absurd whole (Nat.succ_ne_zero _).symm
    next next is =>
      rw [is]
      exact ih (Nat.succ_inj.1 whole)

theorem extent_append_of_final (more : Bytes) (reaches : bytes.foldlM step state = some final) :
    extent step state (bytes ++ more) = bytes.length + extent step final more := by
  induction bytes generalizing state with
  | nil =>
    obtain rfl := Option.some.inj reaches
    exact (Nat.zero_add _).symm
  | cons byte rest ih =>
    rw [List.foldlM_cons] at reaches
    obtain ⟨next, is, further⟩ := Option.bind_eq_some_iff.1 reaches
    rw [List.cons_append, extent, is]
    dsimp only
    rw [ih further, List.length_cons]
    omega

end Automata

/-- After its end a comment takes no byte. -/
theorem final_of_comment {body : Bytes} {final : CommentState}
    (reaches : (body ++ utf8 "*/").foldlM CommentState.step .inside = some final) :
    final = .closed := by
  rw [List.foldlM_append] at reaches
  obtain ⟨middle, _, delimiter⟩ := Option.bind_eq_some_iff.1 reaches
  cases middle with
  | inside => exact (Option.some.inj delimiter).symm
  | asterisk => exact (Option.some.inj delimiter).symm
  | closed => exact absurd delimiter.symm (Option.some_ne_none _)

theorem commentExtent_append {tail body : Bytes} (more : Bytes)
    (written : tail.take (extent CommentState.step .inside tail) = body ++ utf8 "*/") :
    extent CommentState.step .inside (tail ++ more) = extent CommentState.step .inside tail := by
  rcases Nat.lt_or_eq_of_le (extent_le CommentState.step .inside tail) with within | whole
  · exact extent_append more within
  · rw [whole, List.take_length] at written
    obtain ⟨final, reaches⟩ := exists_final_of_extent whole
    obtain rfl := final_of_comment (written ▸ reaches)
    have stopped : extent CommentState.step .closed more = 0 := by
      cases more <;> rfl
    rw [extent_append_of_final more reaches, stopped, whole, Nat.add_zero]

namespace Lexeme

/-- The token that starts with `first` is the same with more bytes behind it. -/
structure Stays (first : UInt8) (rest more : Bytes) : Prop where
  same : ofFirst first (rest ++ more) = ofFirst first rest
  within : (ofFirst first rest).extra ≤ rest.length

variable {first : UInt8} {rest : Bytes}

theorem stays_of_bounded (more : Bytes) (bounded : Bounded rest (ofFirst first rest).extra) :
    Stays first rest more :=
  ⟨ofFirst_settled first rest more bounded, Nat.le_of_lt bounded.lt_length⟩

theorem stays_of_comment {body : Bytes} (more : Bytes)
    (comment : (ofFirst first rest).kind = .comment)
    (written : (ofFirst first rest).literal first rest = utf8 "/*" ++ body ++ utf8 "*/") :
    Stays first rest more := by
  obtain rfl : first = Byte.slash := (List.cons.inj written).1
  change (ofSlash rest).kind = .comment at comment
  have star : rest.head? = some Byte.asterisk := by
    by_contra other
    unfold ofSlash at comment
    rw [if_neg other] at comment
    exact absurd comment nofun
  obtain ⟨tail, rfl⟩ := List.head?_eq_some_iff.1 star
  have closed : tail.take (extent CommentState.step .inside tail) = body ++ utf8 "*/" :=
    (List.cons.inj (List.cons.inj written).2).2
  constructor
  · change ofSlash (Byte.asterisk :: (tail ++ more)) = ofSlash (Byte.asterisk :: tail)
    unfold ofSlash
    rw [List.head?_cons, List.head?_cons, List.tail_cons, List.tail_cons,
      commentExtent_append more closed]
  · exact Nat.succ_le_succ (extent_le CommentState.step .inside tail)

theorem stays_of_shut {start : Position} (more : Bytes)
    (shut : Token.Shut ⟨(ofFirst first rest).kind, (ofFirst first rest).literal first rest, start⟩)
    (spelled : Token.Spelled
      ⟨(ofFirst first rest).kind, (ofFirst first rest).literal first rest, start⟩) :
    Stays first rest more := by
  rcases shut with seals | ⟨comment, body, written⟩
  · rcases Token.literal_of_seals spelled seals with brace | semicolon
    · obtain rfl : first = 0x7d := (List.cons.inj brace).1
      exact ⟨rfl, Nat.zero_le _⟩
    · obtain rfl : first = 0x3b := (List.cons.inj semicolon).1
      exact ⟨rfl, Nat.zero_le _⟩
  · exact stays_of_comment more comment written

end Lexeme

namespace Cut

variable {source : Bytes} {cut : Cut}

/-- The token that is cut off is the same with more bytes behind the source. -/
def Stays (source : Bytes) (cut : Cut) (more : Bytes) : Prop :=
  Cut.ofBytes? (source ++ more) = some { cut with rest := cut.rest ++ more }

theorem stays_of_lexeme {first : UInt8} {rest more : Bytes}
    (split : source.dropWhile Byte.isWhiteSpace = first :: rest)
    (found : Cut.ofBytes? source = some cut) (stays : Lexeme.Stays first rest more) :
    Stays source cut more := by
  have gap : (source ++ more).takeWhile Byte.isWhiteSpace = source.takeWhile Byte.isWhiteSpace := by
    refine (List.takeWhile_append ..).trans (if_neg fun whole => ?_)
    have length := congrArg List.length (List.takeWhile_append_dropWhile
      (p := Byte.isWhiteSpace) (l := source))
    rw [split, List.length_append, List.length_cons] at length
    omega
  have behind : (source ++ more).dropWhile Byte.isWhiteSpace = first :: (rest ++ more) := by
    rw [List.dropWhile_append, split]
    rfl
  unfold Stays
  unfold Cut.ofBytes? at found ⊢
  rw [split] at found
  obtain rfl := Option.some.inj found
  rw [behind, gap]
  dsimp only
  rw [stays.same, List.take_append_of_le_length stays.within,
    List.drop_append_of_le_length stays.within]

/-- A byte further on keeps the token from going on. -/
theorem stays_of_boundary (more : Bytes) (found : Cut.ofBytes? source = some cut)
    (boundary : ∃ byte ∈ cut.rest, Byte.isBoundary byte = true) : Stays source cut more := by
  cases split : source.dropWhile Byte.isWhiteSpace with
  | nil => simp [Cut.ofBytes?, split] at found
  | cons first rest =>
    refine stays_of_lexeme split found (Lexeme.stays_of_bounded more ?_)
    unfold Cut.ofBytes? at found
    rw [split] at found
    obtain rfl := Option.some.inj found
    exact boundary

theorem stays_of_shut {start : Position} (more : Bytes) (found : Cut.ofBytes? source = some cut)
    (shut : Token.Shut ⟨cut.kind, cut.literal, start⟩) : Stays source cut more := by
  have spelled := Cut.spelled found start
  cases split : source.dropWhile Byte.isWhiteSpace with
  | nil => simp [Cut.ofBytes?, split] at found
  | cons first rest =>
    refine stays_of_lexeme split found ?_
    unfold Cut.ofBytes? at found
    rw [split] at found
    obtain rfl := Option.some.inj found
    exact Lexeme.stays_of_shut more shut spelled

theorem ofBytes?_blank {gap : Bytes} (rest : Bytes)
    (blank : ∀ byte ∈ gap, Byte.isWhiteSpace byte = true) :
    Cut.ofBytes? (gap ++ rest) =
      (Cut.ofBytes? rest).map fun cut => { cut with gap := gap ++ cut.gap } := by
  unfold Cut.ofBytes?
  rw [List.dropWhile_append_of_pos blank, List.takeWhile_append_of_pos blank]
  cases rest.dropWhile Byte.isWhiteSpace <;> rfl

end Cut

/-- White space before a source only moves its tokens. -/
theorem tokensFrom_blank {gap : Bytes} (position : Position) (rest : Bytes)
    (blank : ∀ byte ∈ gap, Byte.isWhiteSpace byte = true) :
    tokensFrom position (gap ++ rest) = tokensFrom (position.after gap) rest := by
  rw [tokensFrom, tokensFrom, Cut.ofBytes?_blank rest blank]
  cases Cut.ofBytes? rest with
  | none => exact congrArg (fun place => [Token.endOfInput place]) (Position.after_append ..)
  | some cut =>
    dsimp only [Option.map_some]
    rw [Position.after_append]

theorem tokensFrom_literal {position : Position} {source : Bytes} :
    ∀ token ∈ tokensFrom position source, ∀ byte ∈ token.literal, byte ∈ source := by
  fun_induction tokensFrom position source with
  | case1 position source none => simp [Token.endOfInput]
  | case2 position source cut found start ih =>
    intro token member byte written
    rw [← Cut.ofBytes?_append found]
    rcases List.mem_cons.1 member with rfl | later
    · exact List.mem_append_left _ (List.mem_append_right _ written)
    · exact List.mem_append_right _ (ih token later byte written)

/-- Where the last token of a source is shut, what is put behind the source has its own tokens. -/
theorem tokensFrom_append (position : Position) (source more : Bytes)
    (shut : ∀ last ∈ (tokensFrom position source).dropLast.getLast?, last.Shut) :
    tokensFrom position (source ++ more) =
      (tokensFrom position source).dropLast ++ tokensFrom (position.after source) more := by
  fun_induction tokensFrom position source with
  | case1 position source none => exact tokensFrom_blank position more (Cut.source_blank none)
  | case2 position source cut found start ih =>
    have whole := Cut.ofBytes?_append found
    have some := tokensFrom_ne_nil (start.after cut.literal) cut.rest
    rw [List.dropLast_cons_of_ne_nil some] at shut ⊢
    have stays : Cut.Stays source cut more := by
      cases last : (tokensFrom (start.after cut.literal) cut.rest).dropLast.getLast? with
      | none =>
        rw [List.getLast?_eq_none_iff.1 last] at shut
        exact Cut.stays_of_shut more found (shut _ rfl)
      | some token =>
        have among := List.mem_of_mem_dropLast (List.mem_of_getLast? last)
        have ended : token.Shut := shut token (by rw [List.getLast?_cons, last]; rfl)
        obtain ⟨byte, written, boundary⟩ :=
          ended.has_boundary (tokensFrom_spelled _ _ token among ended.kind_ne_eof)
        exact Cut.stays_of_boundary more found
          ⟨byte, tokensFrom_literal token among byte written, boundary⟩
    have later := ih fun last member => shut last (by rw [List.getLast?_cons, member]; rfl)
    have place : (start.after cut.literal).after cut.rest = position.after source := by
      rw [← whole, Position.after_append, Position.after_append]
    rw [tokensFrom, stays]
    dsimp only
    rw [later, place]
    rfl

end CssSyntax

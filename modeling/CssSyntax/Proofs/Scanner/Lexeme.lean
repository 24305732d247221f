import CssSyntax.Proofs.Scanner.Step

/-! How the machine reads the parts of tokens. Each routine takes byte after byte, looks at one or
two bytes ahead, and goes back where it tried too much. It gets as far as the machines over states
do that tell where tokens end. -/

namespace CssSyntax

namespace Scanner

/-- Up to `limit` hex digits, and one space behind them. -/
def hexDigits? (limit : Nat) (scanner : Scanner) : Option Scanner := do
  let (_, after) ← bumpUpTo? Byte.isHexDigit limit scanner
  if after.nth 0 = Byte.space then after.bump? else return after

/-- What stands behind a backslash: up to six hex digits with one space, or a single byte but a
line feed. -/
def escape? (scanner : Scanner) : Option Scanner := do
  if scanner.isEnd then return scanner
  else if Byte.isHexDigit (scanner.nth 0) then scanner.hexDigits? 6
  else if scanner.nth 0 = Byte.newline then return scanner
  else scanner.bump?

def nameRest? : Scanner → Option Scanner :=
  loop? fun scanner => do
    if scanner.nth 0 = Byte.backslash then return (true, ← (← scanner.bump?).escape?)
    else if Byte.isIdentPart (scanner.nth 0) then return (true, ← scanner.bump?)
    else return (false, scanner)

def name? (scanner : Scanner) : Option Scanner := do
  if scanner.nth 0 = Byte.backslash then (← (← scanner.bump?).escape?).nameRest?
  else scanner.nameRest?

def number? (scanner : Scanner) : Option Scanner := do
  let whole ← bumpWhile? Byte.isDigit scanner
  if whole.nth 0 = Byte.dot ∧ Byte.isDigit (whole.nth 1) then
    bumpWhile? Byte.isDigit (← whole.bump?)
  else return whole

/-- The rest of a comment, its opening taken. -/
def comment? : Scanner → Option Scanner :=
  loop? fun scanner => do
    if scanner.nth 0 = Byte.asterisk ∧ scanner.nth 1 = Byte.slash then
      return (false, ← scanner.bumpTwo?)
    else return (true, ← scanner.bump?)

/-- The rest of a string or of a url, its opening taken. -/
def text? (closing : UInt8) (breaks : UInt8 → Bool) : Scanner → Option Scanner :=
  loop? fun scanner => do
    if scanner.nth 0 = closing then return (false, ← scanner.bump?)
    else if breaks (scanner.nth 0) then return (false, scanner)
    else if scanner.nth 0 = Byte.backslash then return (true, ← scanner.bumpTwo?)
    else return (true, ← scanner.bump?)

/-- A color, or a hash alone. What was tried for the color is given back. -/
def hash? (scanner : Scanner) : Option (Kind × Scanner) := do
  let (count, tried) ← bumpUpTo? Byte.isHexDigit 6 scanner
  let ends := tried.isEnd || !Byte.isIdentPart (tried.nth 0)
  if (count = 3 ∨ count = 6) ∧ ends then return (.color, tried)
  else return (.hash, tried.restore scanner.snapshot)

def hyphen? (scanner : Scanner) : Option (Kind × Scanner) := do
  let next := scanner.nth 1
  if next = Byte.hyphen then return (.ident, ← (← scanner.bumpTwo?).nameRest?)
  else if Byte.isDigit next then return (.number, ← (← scanner.bump?).number?)
  else if Byte.isWhiteSpace next then return (.minus, ← scanner.bump?)
  else if Byte.isIdentStart next ∨ next = Byte.backslash then
    return (.ident, ← (← scanner.bump?).name?)
  else return (.minus, ← scanner.bump?)

/-- The distance to the first byte from `distance` on that is no white space. -/
def inkFrom (scanner : Scanner) (distance : Nat) : Nat :=
  if _blank : Byte.isWhiteSpace (scanner.nth distance) then scanner.inkFrom (distance + 1)
  else distance
termination_by scanner.source.length - (scanner.offset + distance)
decreasing_by
  have inside : scanner.offset + distance < scanner.source.length := by
    by_contra outside
    rw [nth, List.getElem?_eq_none (Nat.not_lt.1 outside)] at _blank
    exact absurd _blank (by decide)
  omega

/-- A name, or a url if the name is `url` and no quote comes first in its parentheses. -/
def word? (scanner : Scanner) : Option (Kind × Scanner) := do
  let after ← scanner.name?
  let name ← after.since? scanner.offset
  if ¬Bytes.sameIgnoringCase name (utf8 "url") ∨ after.nth 0 ≠ Byte.openParen then
    return (.ident, after)
  else if Byte.isQuote (after.nth (after.inkFrom 1)) then return (.ident, after)
  else return (.uri, ← (← after.bump?).text? Byte.closeParen fun _ => false)

/-- One kind for two bytes, another one if the second does not follow. -/
def pair? (second : UInt8) (both alone : Kind) (scanner : Scanner) : Option (Kind × Scanner) := do
  let after ← scanner.bump?
  if after.nth 0 = second then return (both, ← after.bump?) else return (alone, after)

def slash? (scanner : Scanner) : Option (Kind × Scanner) := do
  let after ← scanner.bump?
  if after.nth 0 = Byte.asterisk then return (.comment, ← (← after.bump?).comment?)
  else return (.divide, after)

/-- One token from its first byte on. -/
def lexeme? (scanner : Scanner) : Option (Kind × Scanner) := do
  if scanner.isEnd then return (.eof, scanner)
  else
    let byte := scanner.nth 0
    match Kind.ofPunctuation? byte with
    | some kind => return (kind, ← scanner.bump?)
    | none =>
      if byte = 0x5e then scanner.pair? 0x3d .startsWith .illegal
      else if byte = 0x3a then scanner.pair? 0x3a .doubleColon .colon
      else if byte = Byte.hash then (← scanner.bump?).hash?
      else if byte = Byte.hyphen then scanner.hyphen?
      else if byte = Byte.backslash then return (.ident, ← scanner.name?)
      else if byte = Byte.slash then scanner.slash?
      else if Byte.isQuote byte then
        return (.string, ← (← scanner.bump?).text? byte (· == Byte.newline))
      else if Byte.isIdentStart byte then scanner.word?
      else if Byte.isDigit byte then return (.number, ← scanner.number?)
      else return (.illegal, ← scanner.bump?)

/-- How many bytes an escape takes that may take `limit` more hex digits. -/
def hexExtent (limit : Nat) (bytes : Bytes) : Nat :=
  let digits := ((bytes.take limit).takeWhile Byte.isHexDigit).length
  if (bytes.drop digits).head? = some Byte.space then digits + 1 else digits

def escapeExtent (bytes : Bytes) : Nat :=
  if bytes.head?.any Byte.isHexDigit then hexExtent 6 bytes
  else if bytes.head?.any (· != Byte.newline) then 1
  else 0

section Extents

variable {byte : UInt8} {rest : Bytes}

theorem hexExtent_digit (limit : Nat) (hex : Byte.isHexDigit byte = true) :
    hexExtent (limit + 1) (byte :: rest) = hexExtent limit rest + 1 := by
  unfold hexExtent
  simp only [List.take_succ_cons, List.takeWhile_cons_of_pos hex, List.length_cons,
    List.drop_succ_cons]
  split <;> rfl

theorem hexExtent_other {limit : Nat} (ends : ¬(Byte.isHexDigit byte && 0 < limit) = true) :
    hexExtent limit (byte :: rest) = if byte = Byte.space then 1 else 0 := by
  have none : ((byte :: rest).take limit).takeWhile Byte.isHexDigit = [] := by
    cases limit with
    | zero => rfl
    | succ limit =>
      rw [List.take_succ_cons, List.takeWhile_cons_of_neg fun hex => ends (by simp [hex])]
  simp [hexExtent, none]

theorem extent_hex (limit : Nat) (bytes : Bytes) :
    extent NameState.step (.hex limit) bytes =
      hexExtent limit bytes + nameExtent (bytes.drop (hexExtent limit bytes)) := by
  induction bytes generalizing limit with
  | nil => simp [extent, hexExtent, nameExtent]
  | cons byte rest ih =>
    by_cases hex : (Byte.isHexDigit byte && 0 < limit) = true
    · obtain ⟨digit, positive⟩ := Bool.and_eq_true_iff.1 hex
      obtain ⟨fewer, rfl⟩ := Nat.exists_eq_add_one.2 (of_decide_eq_true positive)
      rw [extent, NameState.step, if_pos hex, hexExtent_digit fewer digit, List.drop_succ_cons]
      dsimp only [Nat.succ_sub_one]
      rw [ih]
      omega
    · rw [extent, NameState.step, if_neg hex, hexExtent_other hex]
      by_cases space : byte = Byte.space
      · simp [space, nameExtent, Nat.add_comm]
      · simp [space, nameExtent, extent, NameState.step]

/-- The rest of a name behind a backslash is what the backslash escapes and the rest behind that. -/
theorem extent_escape (bytes : Bytes) :
    extent NameState.step .escape bytes =
      escapeExtent bytes + nameExtent (bytes.drop (escapeExtent bytes)) := by
  cases bytes with
  | nil => rfl
  | cons byte rest =>
    rw [extent, NameState.step, escapeExtent, List.head?_cons, Option.any_some, Option.any_some]
    by_cases hex : Byte.isHexDigit byte = true
    · rw [if_pos hex, if_pos hex, hexExtent_digit 5 hex, List.drop_succ_cons]
      dsimp only
      rw [extent_hex]
      omega
    · rw [if_neg hex, if_neg hex]
      by_cases feed : byte = Byte.newline
      · simp only [feed, if_true, bne_self_eq_false, Bool.false_eq_true, if_false]
        rfl
      · simp [feed, nameExtent, Nat.add_comm]

theorem nameExtent_backslash (rest : Bytes) :
    nameExtent (Byte.backslash :: rest) =
      1 + escapeExtent rest + nameExtent (rest.drop (escapeExtent rest)) := by
  have behind : nameExtent (Byte.backslash :: rest) = extent NameState.step .escape rest + 1 := rfl
  rw [behind, extent_escape]
  omega

theorem nameExtent_part (plain : byte ≠ Byte.backslash) (part : Byte.isIdentPart byte = true) :
    nameExtent (byte :: rest) = 1 + nameExtent rest := by
  simp [nameExtent, extent, NameState.step, NameState.plainStep, plain, part, Nat.add_comm]

theorem nameExtent_other (plain : byte ≠ Byte.backslash) (ends : ¬Byte.isIdentPart byte = true) :
    nameExtent (byte :: rest) = 0 := by
  simp [nameExtent, extent, NameState.step, NameState.plainStep, plain, ends]

theorem commentExtent_end (rest : Bytes) :
    extent CommentState.step .inside (Byte.asterisk :: Byte.slash :: rest) = 2 := by
  cases rest <;> rfl

/-- An asterisk that no slash follows is any other byte of the comment. -/
theorem commentExtent_cons (goesOn : ¬(byte = Byte.asterisk ∧ rest.head? = some Byte.slash)) :
    extent CommentState.step .inside (byte :: rest) =
      1 + extent CommentState.step .inside rest := by
  by_cases star : byte = Byte.asterisk
  · cases rest with
    | nil => simp [extent, CommentState.step, star]
    | cons next rest =>
      have other : next ≠ Byte.slash := by simpa [star] using goesOn
      simp [extent, CommentState.step, star, other, Nat.add_comm]
  · simp [extent, CommentState.step, star, Nat.add_comm]

theorem isIdentStart_blank (blank : Byte.isWhiteSpace byte = true) :
    ¬(Byte.isIdentStart byte = true ∨ byte = Byte.backslash) := by
  simp only [Byte.isWhiteSpace, Bool.or_eq_true, beq_iff_eq] at blank
  rcases blank with ((rfl | rfl) | rfl) | rfl <;> decide

end Extents

/-- The run ends past a lexeme whose first byte stands at `offset`. -/
def Cuts (source : Bytes) (offset : Nat) (run : Option (Kind × Scanner)) (lexeme : Lexeme) : Prop :=
  run = some (lexeme.kind, past source (offset + 1 + lexeme.extra))

variable {source ahead rest : Bytes} {offset : Nat} {byte : UInt8}

theorem Cuts.ite {yes no : Option (Kind × Scanner)} {first second : Lexeme} {condition : Prop}
    [Decidable condition] (left : condition → Cuts source offset yes first)
    (right : ¬condition → Cuts source offset no second) :
    Cuts source offset (if condition then yes else no) (if condition then first else second) := by
  by_cases holds : condition
  · rw [if_pos holds, if_pos holds]
    exact left holds
  · rw [if_neg holds, if_neg holds]
    exact right holds

/-- Whether a name ends, told from the byte ahead or from there being none. -/
theorem ends_past (here : source.drop offset = ahead) :
    ((past source offset).isEnd || !Byte.isIdentPart ((past source offset).nth 0)) =
      !ahead.head?.any Byte.isIdentPart := by
  rw [isEnd_past here, nth_past here]
  cases ahead <;> rfl

/-- The first byte behind white space. -/
theorem nth_inkFrom (here : source.drop offset = ahead) (distance : Nat) :
    (past source offset).nth ((past source offset).inkFrom distance) =
      (((ahead.drop distance).dropWhile Byte.isWhiteSpace).head?).getD 0 := by
  have look (distance : Nat) :
      (past source offset).nth distance = ((ahead.drop distance).head?).getD 0 := by
    rw [nth_past here, List.head?_drop]
  induction tail : ahead.drop distance generalizing distance with
  | nil =>
    have first : (past source offset).nth distance = 0 := by rw [look, tail]; rfl
    rw [inkFrom, first, dif_neg (by decide), first]
    rfl
  | cons byte rest ih =>
    have first : (past source offset).nth distance = byte := by rw [look, tail]; rfl
    have next : ahead.drop (distance + 1) = rest := by rw [← List.drop_drop, tail]; rfl
    rw [inkFrom, first]
    by_cases blank : Byte.isWhiteSpace byte = true
    · rw [dif_pos blank, ih (distance + 1) next, List.dropWhile_cons_of_pos blank]
    · rw [dif_neg blank, List.dropWhile_cons_of_neg blank, first]
      rfl

/-- What was taken of the source is cut out of it. -/
theorem since?_past (here : source.drop offset = byte :: rest) {count : Nat}
    (within : count ≤ rest.length) :
    (past source (offset + 1 + count)).since? (past source offset).offset =
      some (byte :: rest.take count) := by
  have length := congrArg List.length here
  rw [List.length_drop, List.length_cons] at length
  have bounds : offset ≤ offset + 1 + count ∧ offset + 1 + count ≤ source.length := by omega
  have size : offset + 1 + count - offset = count + 1 := by omega
  refine (if_pos bounds).trans (congrArg some ?_)
  change (source.take (offset + 1 + count)).drop offset = _
  rw [List.drop_take, here, size, List.take_succ_cons]

section Short

variable (short : source.length < 2 ^ 32 - 1)
include short

theorem hexDigits?_past (limit : Nat) (here : source.drop offset = ahead) :
    (past source offset).hexDigits? limit =
      some (past source (offset + hexExtent limit ahead)) := by
  have behind := drop_further here ((ahead.take limit).takeWhile Byte.isHexDigit).length
  have space := @first_eq_iff _ _ _ Byte.space behind (by decide)
  rw [hexDigits?, bumpUpTo?_past short _ limit here, hexExtent]
  by_cases follows : (ahead.drop ((ahead.take limit).takeWhile Byte.isHexDigit).length).head? =
      some Byte.space
  · obtain ⟨rest, is⟩ := List.head?_eq_some_iff.1 follows
    simp [space.2 follows, follows, bump?_past short (behind.trans is), Nat.add_assoc]
  · rw [if_neg follows]
    simp [mt space.1 follows]

theorem escape?_past (here : source.drop offset = ahead) :
    (past source offset).escape? = some (past source (offset + escapeExtent ahead)) := by
  rw [escape?, isEnd_past here, hexDigits?_past short 6 here, escapeExtent]
  cases ahead with
  | nil => rfl
  | cons byte rest =>
    rw [first_past here, bump?_past short here]
    by_cases hex : Byte.isHexDigit byte = true
    · simp [hex]
    · by_cases feed : byte = Byte.newline
      · rw [feed] at hex ⊢
        simp [hex]
      · simp [hex, feed]

theorem nameRest?_past (here : source.drop offset = ahead) :
    nameRest? (past source offset) = some (past source (offset + nameExtent ahead)) := by
  refine loop?_past short rfl (fun offset byte rest here => ?_) offset ahead here
  have next := drop_next here
  rw [first_past here, bump?_past short here]
  by_cases escapes : byte = Byte.backslash
  · refine .inr ⟨1 + escapeExtent rest, by omega, ?_, ?_⟩
    · simp [escapes, escape?_past short next, Nat.add_assoc]
    · rw [escapes, nameExtent_backslash, Nat.add_comm 1 (escapeExtent rest), List.drop_succ_cons]
  · by_cases part : Byte.isIdentPart byte = true
    · exact .inr ⟨1, Nat.one_pos, by simp [escapes, part], nameExtent_part escapes part⟩
    · exact .inl (by simp [escapes, part, nameExtent_other escapes part])

theorem name?_past (here : source.drop offset = ahead) :
    (past source offset).name? = some (past source (offset + nameExtent ahead)) := by
  unfold name?
  have escapes := @first_eq_iff _ _ _ Byte.backslash here (by decide)
  by_cases starts : ahead.head? = some Byte.backslash
  · obtain ⟨rest, rfl⟩ := List.head?_eq_some_iff.1 starts
    have next := drop_next here
    have behind := drop_further next (escapeExtent rest)
    rw [nameExtent_backslash]
    simp only [escapes.2 starts, if_true, bump?_past short here, escape?_past short next,
      Option.bind_eq_bind, Option.bind_some, nameRest?_past short behind]
    simp only [Nat.add_assoc]
  · simp [mt escapes.1 starts, nameRest?_past short here]

theorem digits?_past (here : source.drop offset = ahead) :
    bumpWhile? Byte.isDigit (past source offset) =
      some (past source (offset + digitsExtent ahead)) :=
  bumpWhile?_past short Byte.isDigit here

theorem number?_past (here : source.drop offset = ahead) :
    (past source offset).number? = some (past source (offset + numberExtent ahead)) := by
  have behind := drop_further here (digitsExtent ahead)
  rw [number?, digits?_past short here, numberExtent, ← Nat.add_assoc]
  simp only [Option.bind_eq_bind, Option.bind_some]
  generalize ahead.drop (digitsExtent ahead) = tail at behind ⊢
  cases tail with
  | nil => simp [nth_past behind, fractionExtent, show ¬(0 : UInt8) = Byte.dot by decide]
  | cons point rest =>
    have digit : Byte.isDigit (rest.head?.getD 0) = rest.head?.any Byte.isDigit := by
      cases rest <;> rfl
    simp only [first_past behind, second_past behind, digit, fractionExtent_cons]
    by_cases goes : point = Byte.dot ∧ rest.head?.any Byte.isDigit = true
    · rw [if_pos goes, if_pos goes, bump?_past short behind, Option.bind_some,
        digits?_past short (drop_next behind), Nat.add_assoc _ 1, Nat.add_comm 1]
    · rw [if_neg goes, if_neg goes]
      rfl

theorem comment?_past (here : source.drop offset = ahead) :
    comment? (past source offset) =
      some (past source (offset + extent CommentState.step .inside ahead)) := by
  refine loop?_past short rfl (fun offset byte rest here => ?_) offset ahead here
  rw [first_past here, second_past here]
  by_cases ends : byte = Byte.asterisk ∧ rest.head? = some Byte.slash
  · obtain ⟨rfl, follows⟩ := ends
    obtain ⟨more, rfl⟩ := List.head?_eq_some_iff.1 follows
    rw [commentExtent_end]
    exact .inl (by simp [bumpTwo?_past short here])
  · have goesOn : ¬(byte = Byte.asterisk ∧ rest.head?.getD 0 = Byte.slash) := by
      refine mt (And.imp_right fun slash => ?_) ends
      cases rest with
      | nil => exact absurd slash (by decide)
      | cons next rest => exact congrArg some slash
    exact .inr ⟨1, Nat.one_pos, by simp [goesOn, bump?_past short here], commentExtent_cons ends⟩

theorem text?_past (closing : UInt8) (breaks : UInt8 → Bool) (here : source.drop offset = ahead) :
    text? closing breaks (past source offset) =
      some (past source (offset + extent (TextState.step closing breaks) .inside ahead)) := by
  refine loop?_past short rfl (fun offset byte rest here => ?_) offset ahead here
  rw [first_past here, bump?_past short here, extent, TextState.step]
  by_cases closes : byte = closing
  · have none : extent (TextState.step closing breaks) .closed rest = 0 := by cases rest <;> rfl
    exact .inl (by simp [closes, none])
  by_cases stops : breaks byte = true
  · exact .inl (by simp [closes, stops])
  refine .inr ?_
  by_cases escapes : byte = Byte.backslash
  · subst escapes
    cases rest with
    | nil =>
      refine ⟨1, Nat.one_pos, ?_, ?_⟩
      · simp [closes, stops, bumpTwo?_last short here]
      · simp [closes, stops, extent]
    | cons escaped rest =>
      refine ⟨2, Nat.two_pos, ?_, ?_⟩
      · simp [closes, stops, bumpTwo?_past short here]
      · simp [closes, stops, extent, TextState.step]
        omega
  · refine ⟨1, Nat.one_pos, ?_, ?_⟩
    · simp [closes, stops, escapes]
    · simp [closes, stops, escapes, Nat.add_comm]

theorem hash?_cuts (here : source.drop offset = byte :: rest) :
    Cuts source offset (past source (offset + 1)).hash? (Lexeme.ofHash rest) := by
  have behind := drop_further (drop_next here) ((rest.take 6).takeWhile Byte.isHexDigit).length
  rw [Cuts, hash?, bumpUpTo?_past short _ 6 (drop_next here)]
  unfold Lexeme.ofHash
  simp only [Option.bind_eq_bind, Option.bind_some, ends_past behind, restore_past]
  split <;> rfl

theorem hyphen?_cuts (here : source.drop offset = byte :: rest) :
    Cuts source offset (past source offset).hyphen? (Lexeme.ofHyphen rest) := by
  have behind := drop_next here
  rw [Cuts, hyphen?, second_past here, bump?_past short here]
  cases rest with
  | nil => rfl
  | cons next more =>
    simp only [List.head?_cons, Option.getD_some, Lexeme.ofHyphen]
    by_cases double : next = Byte.hyphen
    · have name := nameRest?_past short (drop_next behind)
      simp only [double, if_true, bumpTwo?_past short here, Option.bind_eq_bind, Option.bind_some,
        name]
      simp only [Nat.add_assoc, Nat.add_comm 1]
      rfl
    by_cases digit : Byte.isDigit next = true
    · simp [double, digit, number?_past short behind]
    by_cases blank : Byte.isWhiteSpace next = true
    · simp [double, digit, blank, isIdentStart_blank blank]
    by_cases starts : Byte.isIdentStart next = true ∨ next = Byte.backslash
    · simp [double, digit, blank, starts, name?_past short behind]
    · simp [double, digit, blank, starts]

theorem word?_cuts (here : source.drop offset = byte :: rest)
    (starts : Byte.isIdentStart byte = true) :
    Cuts source offset (past source offset).word? (Lexeme.ofWord byte rest) := by
  have plain : byte ≠ Byte.backslash := by
    rintro rfl
    exact absurd starts (by decide)
  have part : Byte.isIdentPart byte = true := by simp [Byte.isIdentPart, starts]
  have whole := name?_past short here
  have behind := drop_further (drop_next here) (nameExtent rest)
  rw [nameExtent_part plain part, ← Nat.add_assoc] at whole
  have name : (past source (offset + 1 + nameExtent rest)).since? (past source offset).offset =
      some (byte :: rest.take (nameExtent rest)) :=
    since?_past here (extent_le _ _ rest)
  have opens := @first_eq_iff _ _ _ Byte.openParen behind (by decide)
  have ink := nth_inkFrom behind 1
  rw [Cuts, word?, whole, Option.bind_eq_bind, Option.bind_some, name, Option.bind_eq_bind,
    Option.bind_some, ink]
  unfold Lexeme.ofWord Lexeme.opensUrl
  dsimp only
  generalize rest.drop (nameExtent rest) = left at *
  by_cases url : Bytes.sameIgnoringCase (byte :: rest.take (nameExtent rest)) (utf8 "url") = true
  · by_cases parenthesis : left.head? = some Byte.openParen
    · obtain ⟨tail, rfl⟩ := List.head?_eq_some_iff.1 parenthesis
      have quote : Byte.isQuote (((tail.dropWhile Byte.isWhiteSpace).head?).getD 0) =
          (tail.dropWhile Byte.isWhiteSpace).head?.any Byte.isQuote := by
        cases (tail.dropWhile Byte.isWhiteSpace).head? <;> rfl
      have text := text?_past short Byte.closeParen (fun _ => false) (drop_next behind)
      rw [← TextState.urlStep_eq] at text
      by_cases quoted : (tail.dropWhile Byte.isWhiteSpace).head?.any Byte.isQuote = true
      · simp [url, opens.2 parenthesis, quote, quoted]
      · simp [url, opens.2 parenthesis, quote, quoted, bump?_past short behind, text]
        simp only [Nat.add_assoc]
    · simp [url, mt opens.1 parenthesis, parenthesis]
  · simp [url]

theorem pair?_cuts {second : UInt8} (both alone : Kind) (real : second ≠ 0)
    (here : source.drop offset = byte :: rest) :
    Cuts source offset ((past source offset).pair? second both alone)
      (if rest.head? = some second then ⟨both, 1⟩ else ⟨alone, 0⟩) := by
  have behind := drop_next here
  have follows := first_eq_iff behind real
  rw [Cuts, pair?, bump?_past short here]
  by_cases next : rest.head? = some second
  · obtain ⟨more, rfl⟩ := List.head?_eq_some_iff.1 next
    simp [follows.2 next, bump?_past short behind]
  · simp [mt follows.1 next, next]

theorem slash?_cuts (here : source.drop offset = byte :: rest) :
    Cuts source offset (past source offset).slash? (Lexeme.ofSlash rest) := by
  have behind := drop_next here
  have star := @first_eq_iff _ _ _ Byte.asterisk behind (by decide)
  rw [Cuts, slash?, bump?_past short here, Lexeme.ofSlash]
  by_cases next : rest.head? = some Byte.asterisk
  · obtain ⟨more, rfl⟩ := List.head?_eq_some_iff.1 next
    simp only [star.2 next, next, if_true, bump?_past short behind, Option.bind_eq_bind,
      Option.bind_some, comment?_past short (drop_next behind), List.tail_cons]
    simp only [Nat.add_assoc, Nat.add_comm 1]
    rfl
  · simp [mt star.1 next, next]

/-- The machine takes the bytes of each token that the model does. -/
theorem lexeme?_cuts (here : source.drop offset = byte :: rest) :
    Cuts source offset (past source offset).lexeme? (Lexeme.ofFirst byte rest) := by
  have behind := drop_next here
  rw [lexeme?, isEnd_past here, first_past here, bump?_past short here]
  unfold Lexeme.ofFirst
  dsimp only [List.isEmpty_cons]
  rw [if_neg Bool.false_ne_true]
  cases Kind.ofPunctuation? byte with
  | some kind => rfl
  | none =>
    dsimp only
    refine .ite (fun _ => pair?_cuts short _ _ (by decide) here) fun _ => ?_
    refine .ite (fun _ => pair?_cuts short _ _ (by decide) here) fun _ => ?_
    refine .ite (fun _ => hash?_cuts short here) fun _ => ?_
    refine .ite (fun _ => hyphen?_cuts short here) fun _ => ?_
    refine .ite (fun escapes => ?_) fun _ => ?_
    · subst escapes
      have whole := name?_past short here
      have extra : nameExtent (Byte.backslash :: rest) =
          extent NameState.step .escape rest + 1 := rfl
      rw [extra, Nat.add_comm _ 1, ← Nat.add_assoc] at whole
      rw [whole]
      rfl
    refine .ite (fun _ => slash?_cuts short here) fun _ => ?_
    refine .ite (fun _ => ?_) fun _ => ?_
    · have whole := text?_past short byte (· == Byte.newline) behind
      rw [← TextState.stringStep_eq] at whole
      rw [Option.bind_eq_bind, Option.bind_some, whole]
      rfl
    refine .ite (fun starts => word?_cuts short here starts) fun _ => ?_
    refine .ite (fun digit => ?_) fun _ => rfl
    have whole := number?_past short here
    rw [numberExtent_digit digit rest, ← Nat.add_assoc] at whole
    rw [whole]
    rfl

end Short

end Scanner

end CssSyntax

import CssSyntax.Text.Quoted
import Mathlib.Data.Char
import Mathlib.Data.List.Basic

/-! What is read back from bytes and from quoted text. The bytes of a text are decoded to its
characters, and no quoted text is the front of another one: the quotes and escapes show where it
ends, and each escape stands for one character. -/

namespace CssSyntax

/-- The bytes are the UTF-8 form of a text. -/
def Bytes.IsUtf8 (bytes : Bytes) : Prop := ∃ text, utf8 text = bytes

/-- Two stretches of one kind are the same, if what ends each of them is not of that kind. -/
theorem front_unique {α : Type} {kind : α → Prop} {front other rest more : List α}
    {first second : α} (inFront : ∀ value ∈ front, kind value)
    (inOther : ∀ value ∈ other, kind value) (ends : ¬kind first) (endsOther : ¬kind second)
    (same : front ++ first :: rest = other ++ second :: more) :
    front = other ∧ first = second ∧ rest = more := by
  induction front generalizing other with
  | nil =>
    cases other with
    | nil => exact ⟨rfl, List.cons.inj same⟩
    | cons value values =>
      obtain ⟨rfl, -⟩ := List.cons.inj same
      exact absurd (inOther first List.mem_cons_self) ends
  | cons value values ih =>
    cases other with
    | nil =>
      obtain ⟨rfl, -⟩ := List.cons.inj same
      exact absurd (inFront value List.mem_cons_self) endsOther
    | cons value' others =>
      obtain ⟨rfl, behind⟩ := List.cons.inj same
      obtain ⟨rfl, ends⟩ := ih (fun inner member => inFront inner (List.mem_cons_of_mem _ member))
        (fun inner member => inOther inner (List.mem_cons_of_mem _ member)) behind
      exact ⟨rfl, ends⟩

namespace Utf8

variable {rest : Bytes} {low high : UInt8} {value code left : Nat}

/-- The code points that are characters: all up to the last one but the surrogates. -/
theorem code_range (character : Char) :
    character.val.toNat < 0xd800 ∨
      (0xe000 ≤ character.val.toNat ∧ character.val.toNat < 0x110000) := by
  have valid := character.valid
  unfold UInt32.isValidChar Nat.isValidChar at valid
  omega

theorem toNat_ofNat (small : code < 256) : (UInt8.ofNat code).toNat = code := by
  rw [UInt8.toNat_ofNat', Nat.mod_eq_of_lt small]

/-- A byte of a character that is read in part, if it is in the range that is waited for. -/
theorem step_pending (small : code < 256) (above : low.toNat ≤ code) (below : code ≤ high.toNat) :
    step (some ⟨left, low, high, value⟩) (UInt8.ofNat code) =
      if left ≤ 1 then ([Char.ofNat (value * 64 + (code - 0x80))], none)
      else ([], some ⟨left - 1, tailLow, tailHigh, value * 64 + (code - 0x80)⟩) := by
  have within : low ≤ UInt8.ofNat code ∧ UInt8.ofNat code ≤ high := by
    rw [UInt8.le_iff_toNat_le, UInt8.le_iff_toNat_le, toNat_ofNat small]
    exact ⟨above, below⟩
  change (if low ≤ UInt8.ofNat code ∧ UInt8.ofNat code ≤ high then
    Pending.take ⟨left, low, high, value⟩ (UInt8.ofNat code) else _) = _
  rw [if_pos within]
  unfold Pending.take
  rw [toNat_ofNat small]

theorem decodeFrom_last (small : code < 256) (above : low.toNat ≤ code)
    (below : code ≤ high.toNat) :
    decodeFrom (some ⟨1, low, high, value⟩) (UInt8.ofNat code :: rest) =
      Char.ofNat (value * 64 + (code - 0x80)) :: decodeFrom none rest := by
  rw [decodeFrom, step_pending small above below]
  rfl

theorem decodeFrom_more (small : code < 256) (above : low.toNat ≤ code)
    (below : code ≤ high.toNat) :
    decodeFrom (some ⟨left + 2, low, high, value⟩) (UInt8.ofNat code :: rest) =
      decodeFrom (some ⟨left + 1, tailLow, tailHigh, value * 64 + (code - 0x80)⟩) rest := by
  rw [decodeFrom, step_pending small above below]
  rfl

theorem decodeFrom_lead {pending : Pending} (small : code < 256) (outside : 0x80 ≤ code)
    (announced : ofLead? (UInt8.ofNat code) = some pending) :
    decodeFrom none (UInt8.ofNat code :: rest) = decodeFrom (some pending) rest := by
  have large : ¬UInt8.ofNat code < 0x80 := by
    rw [UInt8.lt_iff_toNat_lt, toNat_ofNat small]
    exact Nat.not_lt.2 outside
  have lead : step none (UInt8.ofNat code) = ([], some pending) := by
    change first (UInt8.ofNat code) = _
    unfold first
    rw [if_neg large, announced]
  rw [decodeFrom, lead]
  rfl

/-- What a lead byte announces, in terms of its number. -/
theorem ofLead?_ofNat (small : code < 256) :
    ofLead? (UInt8.ofNat code) =
      if code < 0xc2 then none
      else if code < 0xe0 then some ⟨1, tailLow, tailHigh, code - 0xc0⟩
      else if code = 0xe0 then some ⟨2, 0xa0, tailHigh, 0⟩
      else if code = 0xed then some ⟨2, tailLow, 0x9f, 0xd⟩
      else if code < 0xf0 then some ⟨2, tailLow, tailHigh, code - 0xe0⟩
      else if code = 0xf0 then some ⟨3, 0x90, tailHigh, 0⟩
      else if code < 0xf4 then some ⟨3, tailLow, tailHigh, code - 0xf0⟩
      else if code = 0xf4 then some ⟨3, tailLow, 0x8f, 4⟩
      else none := by
  unfold ofLead?
  simp only [UInt8.lt_iff_toNat_lt, ← UInt8.toNat_inj, toNat_ofNat small]
  rfl

/-- The lead byte of three announces two more, and the second is in the range it gives. -/
theorem lead_of_three (value : Nat) (above : 0x800 ≤ value) (below : value < 0x10000)
    (noSurrogate : value < 0xd800 ∨ 0xe000 ≤ value) :
    ∃ low high, ofLead? (UInt8.ofNat (value / 4096 % 16 + 224)) =
        some ⟨2, low, high, value / 4096⟩ ∧
      low.toNat ≤ value / 64 % 64 + 128 ∧ value / 64 % 64 + 128 ≤ high.toNat := by
  rw [ofLead?_ofNat (by omega)]
  have tailLow_eq : tailLow.toNat = 0x80 := rfl
  have tailHigh_eq : tailHigh.toNat = 0xbf := rfl
  have a0 : (0xa0 : UInt8).toNat = 0xa0 := rfl
  have f9 : (0x9f : UInt8).toNat = 0x9f := rfl
  by_cases first : value / 4096 = 0
  · refine ⟨0xa0, tailHigh, ?_, by omega, by omega⟩
    rw [if_neg (by omega), if_neg (by omega), if_pos (by omega), first]
  · by_cases surrogates : value / 4096 = 13
    · refine ⟨tailLow, 0x9f, ?_, by omega, by omega⟩
      rw [if_neg (by omega), if_neg (by omega), if_neg (by omega), if_pos (by omega), surrogates]
    · refine ⟨tailLow, tailHigh, ?_, by omega, by omega⟩
      have offset : value / 4096 % 16 + 224 - 0xe0 = value / 4096 := by omega
      rw [if_neg (by omega), if_neg (by omega), if_neg (by omega), if_neg (by omega),
        if_pos (by omega), offset]

theorem lead_of_four (value : Nat) (above : 0x10000 ≤ value) (below : value < 0x110000) :
    ∃ low high, ofLead? (UInt8.ofNat (value / 262144 % 8 + 240)) =
        some ⟨3, low, high, value / 262144⟩ ∧
      low.toNat ≤ value / 4096 % 64 + 128 ∧ value / 4096 % 64 + 128 ≤ high.toNat := by
  rw [ofLead?_ofNat (by omega)]
  have tailLow_eq : tailLow.toNat = 0x80 := rfl
  have tailHigh_eq : tailHigh.toNat = 0xbf := rfl
  have x90 : (0x90 : UInt8).toNat = 0x90 := rfl
  have f8 : (0x8f : UInt8).toNat = 0x8f := rfl
  by_cases first : value / 262144 = 0
  · refine ⟨0x90, tailHigh, ?_, by omega, by omega⟩
    rw [if_neg (by omega), if_neg (by omega), if_neg (by omega), if_neg (by omega),
      if_neg (by omega), if_pos (by omega), first]
  · by_cases last : value / 262144 = 4
    · refine ⟨tailLow, 0x8f, ?_, by omega, by omega⟩
      rw [if_neg (by omega), if_neg (by omega), if_neg (by omega), if_neg (by omega),
        if_neg (by omega), if_neg (by omega), if_neg (by omega), if_pos (by omega), last]
    · refine ⟨tailLow, tailHigh, ?_, by omega, by omega⟩
      have offset : value / 262144 % 8 + 240 - 0xf0 = value / 262144 := by omega
      rw [if_neg (by omega), if_neg (by omega), if_neg (by omega), if_neg (by omega),
        if_neg (by omega), if_neg (by omega), if_pos (by omega), offset]

/-- The bytes of a character are read as that character. -/
theorem decodeFrom_encode (character : Char) (rest : Bytes) :
    decodeFrom none (String.utf8EncodeChar character ++ rest) =
      character :: decodeFrom none rest := by
  have range := code_range character
  have read (value : Nat) (same : value = character.val.toNat) : Char.ofNat value = character :=
    same ▸ Char.ofNat_toNat character
  have tailLow_eq : tailLow.toNat = 0x80 := rfl
  have tailHigh_eq : tailHigh.toNat = 0xbf := rfl
  rw [String.utf8EncodeChar.eq_1]
  generalize character.val.toNat = code at range read ⊢
  split
  next one =>
    have small : UInt8.ofNat code < 0x80 := by
      rw [UInt8.lt_iff_toNat_lt, toNat_ofNat (by omega)]
      exact Nat.lt_succ_of_le one
    rw [List.cons_append, decodeFrom]
    change (first (UInt8.ofNat code)).1 ++ decodeFrom (first (UInt8.ofNat code)).2 rest = _
    unfold first
    rw [if_pos small, toNat_ofNat (by omega), read code rfl]
    rfl
  next notOne =>
    split
    next two =>
      have lead : ofLead? (UInt8.ofNat (code / 64 % 32 + 192)) =
          some ⟨1, tailLow, tailHigh, code / 64⟩ := by
        have offset : code / 64 % 32 + 192 - 0xc0 = code / 64 := by omega
        rw [ofLead?_ofNat (by omega), if_neg (by omega), if_pos (by omega), offset]
      rw [List.cons_append, decodeFrom_lead (by omega) (by omega) lead, List.cons_append,
        decodeFrom_last (by omega) (by omega) (by omega), read _ (by omega)]
      rfl
    next notTwo =>
      split
      next three =>
        obtain ⟨low, high, lead, above, below⟩ :=
          lead_of_three code (by omega) (by omega) (by omega)
        rw [List.cons_append, decodeFrom_lead (by omega) (by omega) lead, List.cons_append,
          decodeFrom_more (by omega) above below, List.cons_append,
          decodeFrom_last (by omega) (by omega) (by omega), read _ (by omega)]
        rfl
      next notThree =>
        obtain ⟨low, high, lead, above, below⟩ :=
          lead_of_four code (by omega) (by omega)
        rw [List.cons_append, decodeFrom_lead (by omega) (by omega) lead, List.cons_append,
          decodeFrom_more (by omega) above below, List.cons_append,
          decodeFrom_more (by omega) (by omega) (by omega), List.cons_append,
          decodeFrom_last (by omega) (by omega) (by omega), read _ (by omega)]
        rfl

/-- Decoding takes the UTF-8 form of a text back to its characters. -/
theorem decode_utf8 (text : String) : decode (utf8 text) = text.toList := by
  unfold decode utf8
  induction text.toList with
  | nil => rfl
  | cons character rest ih => rw [List.flatMap_cons, decodeFrom_encode, ih]

end Utf8

/-- Bytes that are texts are told apart by what they are decoded to. -/
theorem Bytes.eq_of_decode {left right : Bytes} (leftText : left.IsUtf8) (rightText : right.IsUtf8)
    (same : Utf8.decode left = Utf8.decode right) : left = right := by
  obtain ⟨first, rfl⟩ := leftText
  obtain ⟨second, rfl⟩ := rightText
  rw [Utf8.decode_utf8, Utf8.decode_utf8] at same
  rw [String.toList_inj.1 same]

namespace Quoted

theorem digitChar_injective {left right : Nat} (leftSmall : left < 16) (rightSmall : right < 16)
    (same : left.digitChar = right.digitChar) : left = right := by
  have all : ∀ left < 16, ∀ right < 16, left.digitChar = right.digitChar → left = right := by
    decide
  exact all left leftSmall right rightSmall same

/-- Hexadecimal digits stand for one number. -/
theorem toDigits_injective {left right : Nat}
    (same : Nat.toDigits 16 left = Nat.toDigits 16 right) : left = right := by
  induction left using Nat.strong_induction_on generalizing right with
  | h left ih =>
    rw [Nat.toDigits_eq_if (by decide), Nat.toDigits_eq_if (n := right) (by decide)] at same
    have leftDigits := Nat.length_toDigits_pos (b := 16) (n := left / 16)
    have rightDigits := Nat.length_toDigits_pos (b := 16) (n := right / 16)
    split at same <;> split at same
    next leftSmall rightSmall =>
      exact digitChar_injective leftSmall rightSmall (List.cons.inj same).1
    next =>
      have lengths := congrArg List.length same
      simp only [List.length_append, List.length_singleton] at lengths
      omega
    next =>
      have lengths := congrArg List.length same
      simp only [List.length_append, List.length_singleton] at lengths
      omega
    next leftLarge rightLarge =>
      obtain ⟨front, last⟩ := List.append_inj' same rfl
      have quotient := ih (left / 16) (by omega) front
      have remainder := digitChar_injective (Nat.mod_lt left (by decide))
        (Nat.mod_lt right (by decide)) (List.cons.inj last).1
      omega

/-- Digits are digit characters. -/
theorem not_mem_toDigits {character : Char} (noDigit : ∀ digit : Nat, digit.digitChar ≠ character)
    (number : Nat) : character ∉ Nat.toDigits 16 number := by
  have single (digit : Nat) : character ∉ [digit.digitChar] := fun member =>
    noDigit digit (List.mem_singleton.1 member).symm
  induction number using Nat.strong_induction_on with
  | h number ih =>
    rw [Nat.toDigits_eq_if (by decide)]
    split
    next => exact single number
    next large =>
      rw [List.mem_append]
      exact not_or.2 ⟨ih (number / 16) (by omega), single _⟩

/-- The short escapes: what stands after the backslash, and the character. -/
def escapes : List (Char × Char) :=
  [('0', Char.ofNat 0), ('t', '\t'), ('r', '\r'), ('n', '\n'), ('"', '"'), ('\\', '\\')]

/-- How a character is written between quotes. -/
inductive Encodes : List Char → Char → Prop
  | shown {character : Char} (plain : character ∉ ['\n', '"', '\\']) :
      Encodes [character] character
  | escape {mark character : Char} (known : (mark, character) ∈ escapes) :
      Encodes ['\\', mark] character
  | codePoint (character : Char) : Encodes (codePoint character) character

theorem encodes_encodeChar (character : Char) : Encodes (encodeChar character) character := by
  have known (mark : Char) (among : (mark, character) ∈ escapes) :
      Encodes ['\\', mark] character := .escape among
  unfold encodeChar
  split
  next is => exact known '0' (by simp [escapes, is])
  next =>
    split
    next is => exact known 't' (by simp [escapes, is])
    next =>
      split
      next is => exact known 'r' (by simp [escapes, is])
      next =>
        split
        next is => exact known 'n' (by simp [escapes, is])
        next newline =>
          split
          next is => exact known '"' (by simp [escapes, is])
          next quote =>
            split
            next is => exact known '\\' (by simp [escapes, is])
            next backslash =>
              split
              next => exact .shown (by simp [newline, quote, backslash])
              next => exact .codePoint character

theorem codePoint_append (character : Char) (rest : List Char) :
    codePoint character ++ rest =
      '\\' :: 'u' :: '{' :: (Nat.toDigits 16 character.toNat ++ '}' :: rest) := by
  unfold codePoint
  rw [List.append_assoc, List.append_assoc]
  rfl

theorem codePoint_unique {left right : Char} {rest other : List Char}
    (same : codePoint left ++ rest = codePoint right ++ other) : left = right ∧ rest = other := by
  rw [codePoint_append, codePoint_append] at same
  have digits := (List.cons.inj (List.cons.inj (List.cons.inj same).2).2).2
  have noBrace (number : Nat) : ∀ digit ∈ Nat.toDigits 16 number, digit ≠ '}' := by
    rintro _ member rfl
    exact not_mem_toDigits (fun _ => Nat.digitChar_ne '}' rfl) number member
  obtain ⟨number, -, ends⟩ :=
    front_unique (noBrace _) (noBrace _) (not_not.2 rfl) (not_not.2 rfl) digits
  exact ⟨Char.toNat_inj.1 (toDigits_injective number), ends⟩

/-- No escape is the front of another one. -/
theorem Encodes.unique {leftCode rightCode rest other : List Char} {left right : Char}
    (first : Encodes leftCode left) (second : Encodes rightCode right)
    (same : leftCode ++ rest = rightCode ++ other) : left = right ∧ rest = other := by
  have noBackslash {character : Char} (plain : character ∉ ['\n', '"', '\\']) :
      character ≠ '\\' := by
    rintro rfl
    exact plain (by decide)
  have marks : ∀ left ∈ escapes, ∀ right ∈ escapes, left.1 = right.1 → left.2 = right.2 := by
    decide
  have noCode : ∀ known ∈ escapes, known.1 ≠ 'u' := by decide
  cases first with
  | shown plain =>
    cases second with
    | shown _ => exact List.cons.inj same
    | escape _ => exact absurd (List.cons.inj same).1 (noBackslash plain)
    | codePoint _ => exact absurd (List.cons.inj same).1 (noBackslash plain)
  | escape known =>
    cases second with
    | shown plain => exact absurd (List.cons.inj same).1.symm (noBackslash plain)
    | escape other =>
      obtain ⟨mark, behind⟩ := List.cons.inj (List.cons.inj same).2
      exact ⟨marks _ known _ other mark, behind⟩
    | codePoint _ =>
      rw [codePoint_append] at same
      exact absurd (List.cons.inj (List.cons.inj same).2).1 (noCode _ known)
  | codePoint _ =>
    cases second with
    | shown plain => exact absurd (List.cons.inj same).1.symm (noBackslash plain)
    | escape known =>
      rw [codePoint_append] at same
      exact absurd (List.cons.inj (List.cons.inj same).2).1.symm (noCode _ known)
    | codePoint _ => exact codePoint_unique same

/-- A character never starts as the closing quote does. -/
theorem Encodes.head_ne {code rest other : List Char} {character : Char}
    (encodes : Encodes code character) : code ++ rest ≠ '"' :: other := by
  intro same
  have head : ∀ first more, code ++ rest = first :: more → first = '"' := fun first more is =>
    (List.cons.inj (is.symm.trans same)).1
  cases encodes with
  | shown plain =>
    obtain rfl := head _ _ rfl
    exact plain (by decide)
  | escape known => exact absurd (head _ _ rfl) (by decide)
  | codePoint _ => exact absurd (head _ _ (codePoint_append ..)) (by decide)

/-- Between quotes no line ends. -/
theorem Encodes.newline_not_mem {code : List Char} {character : Char}
    (encodes : Encodes code character) : '\n' ∉ code := by
  cases encodes with
  | shown plain =>
    intro member
    obtain rfl := List.mem_singleton.1 member
    exact plain (by decide)
  | escape known =>
    have marks : ∀ known ∈ escapes, '\n' ∉ ['\\', known.1] := by decide
    exact marks _ known
  | codePoint _ =>
    intro member
    have digits : '\n' ∈ Nat.toDigits 16 character.toNat := by
      simpa [Quoted.codePoint] using member
    exact not_mem_toDigits (fun _ => Nat.digitChar_ne '\n' rfl) _ digits

/-- A quoted text shows where it ends. -/
theorem flatMap_unique {left right rest other : List Char}
    (same : left.flatMap encodeChar ++ '"' :: rest = right.flatMap encodeChar ++ '"' :: other) :
    left = right ∧ rest = other := by
  induction left generalizing right with
  | nil =>
    cases right with
    | nil => exact ⟨rfl, (List.cons.inj same).2⟩
    | cons first more =>
      rw [List.flatMap_cons, List.append_assoc] at same
      exact absurd same.symm (encodes_encodeChar first).head_ne
  | cons first more ih =>
    rw [List.flatMap_cons, List.append_assoc] at same
    cases right with
    | nil => exact absurd same (encodes_encodeChar first).head_ne
    | cons second others =>
      rw [List.flatMap_cons, List.append_assoc] at same
      obtain ⟨rfl, behind⟩ := (encodes_encodeChar first).unique (encodes_encodeChar second) same
      obtain ⟨rfl, ends⟩ := ih behind
      exact ⟨rfl, ends⟩

end Quoted

theorem quoted_toList (bytes : Bytes) :
    (quoted bytes).toList = '"' :: ((Utf8.decode bytes).flatMap Quoted.encodeChar ++ ['"']) := by
  unfold quoted Quoted.encode
  rw [String.toList_ofList]
  rfl

theorem newline_not_mem_quoted (bytes : Bytes) : '\n' ∉ (quoted bytes).toList := by
  rw [quoted_toList]
  intro member
  simp only [List.mem_cons, List.mem_append, List.mem_flatMap, List.not_mem_nil, or_false] at member
  rcases member with open_ | ⟨character, -, among⟩ | close
  · exact absurd open_ (by decide)
  · exact (Quoted.encodes_encodeChar character).newline_not_mem among
  · exact absurd close (by decide)

/-- Quoted texts are told apart, whatever is written behind them. -/
theorem quoted_append_unique {left right : Bytes} {rest other : List Char}
    (leftText : left.IsUtf8) (rightText : right.IsUtf8)
    (same : (quoted left).toList ++ rest = (quoted right).toList ++ other) :
    left = right ∧ rest = other := by
  rw [quoted_toList, quoted_toList, List.cons_append, List.cons_append, List.append_assoc,
    List.append_assoc] at same
  obtain ⟨decoded, ends⟩ := Quoted.flatMap_unique (List.cons.inj same).2
  exact ⟨Bytes.eq_of_decode leftText rightText decoded, ends⟩

end CssSyntax

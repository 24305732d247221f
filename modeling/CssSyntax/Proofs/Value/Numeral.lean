import CssSyntax.Proofs.Comments.Bare
import CssSyntax.Proofs.Parser.Yield
import CssSyntax.Proofs.Token.Located
import CssSyntax.Proofs.Written.Value

/-! Numbers that are values. A number token may start with a hyphen and may hold a point, and a
value takes a sign and a point before such a token and a unit behind it. It is one number, unless
both bring a sign or both bring a point. -/

namespace CssSyntax

namespace Bytes

def Digits (bytes : Bytes) : Prop := ∀ byte ∈ bytes, Byte.isDigit byte = true

/-- A point with the digits behind it, or nothing. -/
inductive Fraction : Bytes → Prop
  | none : Fraction []
  | point {digits : Bytes} (some : digits ≠ []) (all : Digits digits) :
      Fraction (Byte.dot :: digits)

/-- One number: at most one sign, digits with at most one point, which a digit follows, and at most
one unit. -/
inductive Quantity : Bytes → Prop
  | mk {sign digits fraction unit : Bytes}
      (signed : sign = [] ∨ sign = utf8 "+" ∨ sign = utf8 "-") (all : Digits digits)
      (behind : Fraction fraction) (some : digits ++ fraction ≠ [])
      (carried : unit = [] ∨ isUnit unit = true) :
      Quantity (sign ++ digits ++ fraction ++ unit)

/-- A number that is one token: digits with their fraction, and perhaps a hyphen before them. -/
structure Numeral (literal sign digits fraction : Bytes) : Prop where
  whole : literal = sign ++ digits ++ fraction
  signed : sign = [] ∨ sign = utf8 "-"
  some : digits ≠ []
  all : Digits digits
  behind : Fraction fraction

section Marks

variable {literal sign digits fraction unit front point : Bytes}

theorem Digits.not_mem {byte : UInt8} (all : Digits digits) (other : Byte.isDigit byte = false) :
    byte ∉ digits :=
  fun member => Bool.false_ne_true (other.symm.trans (all byte member))

theorem Fraction.hyphen (behind : Fraction fraction) : Byte.hyphen ∉ fraction := by
  cases behind with
  | none => exact List.not_mem_nil
  | point _ all => exact List.not_mem_cons_of_ne_of_not_mem (by decide) (all.not_mem rfl)

theorem Fraction.dot_mem_iff (behind : Fraction fraction) :
    Byte.dot ∈ fraction ↔ fraction ≠ [] := by
  cases behind with
  | none => simp
  | point => simp

theorem Fraction.count_dot (behind : Fraction fraction) : fraction.count Byte.dot ≤ 1 := by
  cases behind with
  | none => exact Nat.zero_le 1
  | @point digits _ all =>
    have none : Byte.dot ∉ digits := all.not_mem rfl
    rw [List.count_cons_self, List.count_eq_zero_of_not_mem none]

/-- Neither a sign nor a point is part of a unit. -/
theorem unit_unmarked (carried : unit = [] ∨ isUnit unit = true) :
    Byte.hyphen ∉ unit ∧ Byte.dot ∉ unit := by
  have known : ∀ name ∈ units, Byte.hyphen ∉ lower (utf8 name) ∧ Byte.dot ∉ lower (utf8 name) := by
    decide
  rcases carried with rfl | carried
  · simp
  rcases Bool.or_eq_true_iff.1 carried with percentage | named
  · obtain rfl := eq_of_beq percentage
    decide
  · obtain ⟨name, member, same⟩ := List.any_eq_true.1 named
    have spelled : lower (utf8 name) = lower unit := eq_of_beq same
    have both := known name member
    rw [spelled] at both
    exact both.imp (fun none member => none (List.mem_map_of_mem member))
      fun none member => none (List.mem_map_of_mem member)

/-- A hyphen is the sign of a number or no part of it. -/
theorem Quantity.hyphen_tail {bytes : Bytes} (quantity : Quantity bytes) :
    Byte.hyphen ∉ bytes.tail := by
  obtain @⟨sign, digits, fraction, unit, signed, all, behind, -, carried⟩ := quantity
  have plain : Byte.hyphen ∉ digits ++ fraction ++ unit := by
    simp only [List.mem_append, not_or]
    exact ⟨⟨all.not_mem rfl, behind.hyphen⟩, (unit_unmarked carried).1⟩
  have split : sign ++ digits ++ fraction ++ unit = sign ++ (digits ++ fraction ++ unit) := by
    simp
  rw [split]
  rcases signed with rfl | rfl | rfl
  · exact fun member => plain (List.mem_of_mem_tail member)
  · exact plain
  · exact plain

theorem Quantity.count_dot {bytes : Bytes} (quantity : Quantity bytes) :
    bytes.count Byte.dot ≤ 1 := by
  obtain @⟨sign, digits, fraction, unit, signed, all, behind, -, carried⟩ := quantity
  have inSign : Byte.dot ∉ sign := by
    rcases signed with rfl | rfl | rfl <;> decide
  have inDigits : Byte.dot ∉ digits := all.not_mem rfl
  have inUnit : Byte.dot ∉ unit := (unit_unmarked carried).2
  have one := behind.count_dot
  simp only [List.count_append, List.count_eq_zero_of_not_mem inSign,
    List.count_eq_zero_of_not_mem inDigits, List.count_eq_zero_of_not_mem inUnit]
  omega

namespace Numeral

variable (numeral : Numeral literal sign digits fraction)
include numeral

theorem hyphen_mem_iff : Byte.hyphen ∈ literal ↔ sign ≠ [] := by
  have inDigits : Byte.hyphen ∉ digits := numeral.all.not_mem rfl
  rw [numeral.whole]
  simp only [List.mem_append, inDigits, numeral.behind.hyphen, or_false]
  rcases numeral.signed with rfl | rfl <;> decide

theorem dot_mem_iff : Byte.dot ∈ literal ↔ fraction ≠ [] := by
  have inSign : Byte.dot ∉ sign := by
    rcases numeral.signed with rfl | rfl <;> decide
  have inDigits : Byte.dot ∉ digits := numeral.all.not_mem rfl
  rw [numeral.whole]
  simp only [List.mem_append, inSign, inDigits, false_or]
  exact numeral.behind.dot_mem_iff

/-- A number token with a sign and a point before it is one number, unless the token has a sign of
its own, or it has a point and there is one before it. -/
theorem quantity_iff (signed : front = [] ∨ front = utf8 "+" ∨ front = utf8 "-")
    (pointed : point = [] ∨ point = [Byte.dot]) (carried : unit = [] ∨ isUnit unit = true) :
    Quantity (front ++ point ++ literal ++ unit) ↔
      ¬(front ++ point ≠ [] ∧ Byte.hyphen ∈ literal ∨ point ≠ [] ∧ Byte.dot ∈ literal) := by
  constructor
  · rintro quantity (⟨marked, hyphen⟩ | ⟨marked, dot⟩)
    · obtain ⟨first, others, split⟩ := List.exists_cons_of_ne_nil marked
      have last := quantity.hyphen_tail
      rw [split] at last
      simp [hyphen] at last
    · have one := quantity.count_dot
      have some : 0 < literal.count Byte.dot := List.count_pos_iff.2 dot
      obtain rfl := pointed.resolve_left marked
      simp only [List.count_append, List.count_singleton_self] at one
      omega
  · intro agree
    rw [numeral.hyphen_mem_iff, numeral.dot_mem_iff] at agree
    obtain ⟨whole, own, some, all, behind⟩ := numeral
    rw [whole]
    rcases own with rfl | rfl
    · rcases pointed with rfl | rfl
      · have quantity := Quantity.mk signed all behind (List.append_ne_nil_of_left_ne_nil some _)
          carried
        simpa using quantity
      · have alone : fraction = [] := by simpa using agree
        have quantity := Quantity.mk signed (List.forall_mem_nil _) (.point some all) nofun carried
        simpa [alone] using quantity
    · have none : front ++ point = [] := by
        by_contra marked
        exact agree (.inl ⟨marked, by decide⟩)
      have quantity := Quantity.mk (.inr (.inr rfl)) all behind
        (List.append_ne_nil_of_left_ne_nil some _) carried
      simpa [none] using quantity

end Numeral

end Marks

end Bytes

section Tokens

open Bytes

theorem digits_take (bytes : Bytes) :
    bytes.take (digitsExtent bytes) = bytes.takeWhile Byte.isDigit :=
  (List.prefix_iff_eq_take.1 (List.takeWhile_prefix _)).symm

theorem fraction_take (bytes : Bytes) : Fraction (bytes.take (fractionExtent bytes)) := by
  cases bytes with
  | nil => exact .none
  | cons point rest =>
    cases rest with
    | nil => exact .none
    | cons digit rest =>
      rw [fractionExtent]
      split
      next starts =>
        obtain ⟨rfl, isDigit⟩ := starts
        rw [List.take_succ_cons, digits_take]
        refine .point ?_ fun _ => List.mem_takeWhile_imp
        simp [isDigit]
      next => exact .none

/-- The bytes of a number without its sign: its digits, and a fraction. -/
theorem number_take (bytes : Bytes) :
    ∃ fraction, Fraction fraction ∧
      bytes.take (numberExtent bytes) = bytes.takeWhile Byte.isDigit ++ fraction := by
  refine ⟨_, fraction_take (bytes.drop (digitsExtent bytes)), ?_⟩
  rw [numberExtent, List.take_add, digits_take]

namespace Lexeme

/-- A lexeme that is no number, or one from a digit on or from a hyphen before a digit. -/
def Counted (first : UInt8) (rest : Bytes) (lexeme : Lexeme) : Prop :=
  lexeme.kind = .number → lexeme.extra = numberExtent rest ∧
    (Byte.isDigit first = true ∨ first = Byte.hyphen ∧ rest.head?.any Byte.isDigit = true)

theorem counted_of_other {first : UInt8} {rest : Bytes} {lexeme : Lexeme}
    (other : lexeme.kind ≠ .number) : lexeme.Counted first rest :=
  fun is => absurd is other

theorem ofHyphen_counted (rest : Bytes) : (ofHyphen rest).Counted Byte.hyphen rest := by
  cases rest with
  | nil => exact counted_of_other (by decide)
  | cons byte more =>
    unfold ofHyphen
    dsimp only
    split
    next => exact counted_of_other (by simp)
    split
    next digit => exact fun _ => ⟨rfl, .inr ⟨rfl, digit⟩⟩
    split
    next => exact counted_of_other (by simp)
    next => exact counted_of_other (by simp)

theorem ofFirst_counted (first : UInt8) (rest : Bytes) :
    (ofFirst first rest).Counted first rest := by
  unfold ofFirst
  split
  next kind found =>
    refine counted_of_other ?_
    rintro rfl
    have spelling := Kind.spelling?_ofPunctuation? first .number found
    exact absurd spelling.symm (Option.some_ne_none _)
  split
  next =>
    unfold ofCaret
    split <;> exact counted_of_other (by simp)
  split
  next =>
    unfold ofColon
    split <;> exact counted_of_other (by simp)
  split
  next =>
    unfold ofHash
    dsimp only
    split <;> exact counted_of_other (by simp)
  split
  next hyphen => exact hyphen ▸ ofHyphen_counted rest
  split
  next => exact counted_of_other (by simp)
  split
  next =>
    unfold ofSlash
    split <;> exact counted_of_other (by simp)
  split
  next => exact counted_of_other (by simp)
  split
  next =>
    unfold ofWord
    dsimp only
    split <;> exact counted_of_other (by simp)
  split
  next digit => exact fun _ => ⟨rfl, .inl digit⟩
  next => exact counted_of_other (by simp)

/-- What the bytes of a number are. -/
theorem Counted.numeral {first : UInt8} {rest : Bytes} {lexeme : Lexeme}
    (counted : lexeme.Counted first rest) (is : lexeme.kind = .number) :
    ∃ sign digits fraction, Numeral (lexeme.literal first rest) sign digits fraction := by
  obtain ⟨extra, starts⟩ := counted is
  obtain ⟨fraction, behind, taken⟩ := number_take rest
  rw [literal, extra, taken]
  rcases starts with digit | ⟨rfl, digit⟩
  · refine ⟨[], first :: rest.takeWhile Byte.isDigit, fraction, rfl, .inl rfl, by simp, ?_, behind⟩
    exact List.forall_mem_cons.2 ⟨digit, fun _ => List.mem_takeWhile_imp⟩
  · refine ⟨utf8 "-", rest.takeWhile Byte.isDigit, fraction, rfl, .inr rfl, ?_,
      fun _ => List.mem_takeWhile_imp, behind⟩
    cases rest with
    | nil => simp at digit
    | cons byte more =>
      have isDigit : Byte.isDigit byte = true := digit
      simp [isDigit]

end Lexeme

/-- The number tokens of a source hold one number each. -/
theorem tokenize_numeral {source : Bytes} {token : Token} (member : token ∈ tokenize source)
    (is : token.kind = .number) :
    ∃ sign digits fraction, Numeral token.literal sign digits fraction := by
  obtain ⟨front, back, split⟩ := List.append_of_mem member
  cases tokenize_located split with
  | finish => exact absurd is (by simp [Token.endOfInput])
  | @lexeme before rest first lexeme split read =>
    subst read
    exact (Lexeme.ofFirst_counted first rest).numeral is

end Tokens

section Reading

open Grammar Reading Written

variable {parser : Parser} {room : Nat} {number : Token}

/-- The unit of a number, if one stands right behind it. -/
theorem exists_unit (number : Token) (behind : List Token) :
    ∃ unit rest, behind = unit ++ rest ∧
      (unit = [] ∨ ∃ token, unit = [token] ∧ Written.IsUnit token) ∧
      (numberWithUnit number).Reads (number :: unit) rest (number.literal ++ literals unit) := by
  by_cases follows : ∃ next ∈ behind.head?, Written.IsUnit next ∧ number.stop = next.start.offset
  · obtain ⟨next, first, carried, adjacent⟩ := follows
    obtain ⟨rest, rfl⟩ := List.head?_eq_some_iff.1 first
    refine ⟨[next], rest, rfl, .inr ⟨next, rfl, carried⟩, ?_⟩
    have read : (numberWithUnit number).Reads [number, next] rest _ :=
      quantity_reads carried adjacent
    simpa [literals] using read
  · refine ⟨[], behind, rfl, .inl rfl, ?_⟩
    have read : (numberWithUnit number).Reads [number] behind _ :=
      numberAlone_reads fun next first carried adjacent =>
        follows ⟨next, first, carried, adjacent⟩
    simpa [literals] using read

/-- A number is read from a mark only. -/
theorem kind_of_startsNumeric (starts : parser.startsNumeric = true) :
    parser.current.kind = .minus ∨ parser.current.kind = .plus ∨ parser.current.kind = .dot := by
  obtain ⟨front, number, rest, split, marks, -⟩ := Parser.startsNumeric_split starts
  cases front with
  | nil => cases marks
  | cons first others =>
    have here : parser.current = first := current_of_head (split ▸ rfl)
    rw [here]
    exact Parser.kind_of_mark (marks.mark first List.mem_cons_self)

/-- Where a value starts with a number, or with marks before one, it is what `numeric` reads. -/
theorem value_numeric
    (starts : parser.current.kind = .number ∨ parser.startsNumeric = true) :
    value room parser = (some (.basic (numeric parser).1), (numeric parser).2) := by
  unfold value valueWith
  rw [current_apply]
  rcases starts with is | starts
  · simp only [is]
    rfl
  · have mark : markValue parser = (.basic (numeric parser).1, (numeric parser).2) := by
      change (if parser.startsNumeric = true then (_ : Reading Value) else _) parser = _
      rw [if_pos starts]
      rfl
    have marked : (some <$> markValue : Reading (Option Value)) parser =
        (some (.basic (numeric parser).1), (numeric parser).2) := by
      change (some (markValue parser).1, (markValue parser).2) = _
      rw [mark]
    rcases kind_of_startsNumeric starts with is | is | is <;> simpa only [is] using marked

/-- What stands where a value starts with a number: marks, one number and its unit. -/
theorem exists_numeric (room : Nat)
    (starts : parser.current.kind = .number ∨ parser.startsNumeric = true) :
    ∃ marks number unit rest, parser.ahead = marks ++ number :: unit ++ rest ∧
      (marks = [] ∨ Parser.NumberMarks marks) ∧ number.kind = .number ∧
      (unit = [] ∨ ∃ token, unit = [token] ∧ Written.IsUnit token) ∧
      value room parser =
        (some (.basic (literals marks ++ number.literal ++ literals unit)),
          { parser with ahead := rest }) := by
  obtain ⟨marks, number, behind, split, before, is⟩ : ∃ marks number behind,
      parser.ahead = marks ++ number :: behind ∧ (marks = [] ∨ Parser.NumberMarks marks) ∧
        number.kind = .number := by
    rcases starts with is | starts
    · obtain ⟨rest, split⟩ := Parser.ahead_eq_cons (kind_ne_eof_of_eq is nofun)
      exact ⟨[], parser.current, rest, split, .inl rfl, is⟩
    · obtain ⟨marks, number, rest, split, before, is⟩ := Parser.startsNumeric_split starts
      exact ⟨marks, number, rest, split, .inr before, is⟩
  obtain ⟨unit, rest, rfl, carried, read⟩ := exists_unit number behind
  have mark : ∀ token ∈ marks, (Parser.isSign token || token.kind == .dot) = true := by
    rcases before with rfl | before
    · exact List.forall_mem_nil _
    · exact before.mark
  have whole : parser.ahead = marks ++ number :: unit ++ rest := by simp [split]
  refine ⟨marks, number, unit, rest, whole, before, is, carried, ?_⟩
  rw [value_numeric starts, numeric_reads mark is read parser whole, List.append_assoc]

/-- How the marks before a number are written. -/
theorem literals_marks {marks : List Token} (before : marks = [] ∨ Parser.NumberMarks marks)
    (spelled : ∀ token ∈ marks, token.Spelled) :
    ∃ front point, literals marks = front ++ point ∧
      (front = [] ∨ front = utf8 "+" ∨ front = utf8 "-") ∧ (point = [] ∨ point = [Byte.dot]) ∧
      (front ++ point ≠ [] ↔ marks ≠ []) ∧
      (point ≠ [] ↔ ∃ mark ∈ marks, mark.kind = .dot) := by
  have sign {token : Token} (member : token ∈ marks) (is : Parser.isSign token = true) :
      (token.literal = utf8 "+" ∨ token.literal = utf8 "-") ∧ token.kind ≠ .dot := by
    have fixed := (spelled token member).fixed
    rcases Parser.kind_of_isSign is with kind | kind
    · exact ⟨.inr (fixed _ (by rw [kind]; rfl)), by simp [kind]⟩
    · exact ⟨.inl (fixed _ (by rw [kind]; rfl)), by simp [kind]⟩
  have point {token : Token} (member : token ∈ marks) (is : token.kind = .dot) :
      token.literal = [Byte.dot] :=
    (spelled token member).fixed _ (by rw [is]; rfl)
  rcases before with rfl | before
  · exact ⟨[], [], rfl, .inl rfl, .inl rfl, by simp, by simp⟩
  cases before with
  | @sign token is =>
    obtain ⟨written, other⟩ := sign List.mem_cons_self is
    have some := (spelled token List.mem_cons_self).written
    exact ⟨token.literal, [], by simp [literals], .inr written, .inl rfl, by simp [some],
      by simp [other]⟩
  | @point token is =>
    have written := point List.mem_cons_self is
    exact ⟨[], [Byte.dot], by simp [literals, written], .inl rfl, .inr rfl, by simp, by simp [is]⟩
  | @both first second is dot =>
    obtain ⟨written, other⟩ := sign List.mem_cons_self is
    have behind := point (List.mem_cons_of_mem _ List.mem_cons_self) dot
    exact ⟨first.literal, [Byte.dot], by simp [literals, behind], .inr written, .inr rfl, by simp,
      by simp [dot]⟩

/-- How the unit of a number is written. -/
theorem literals_unit {unit : List Token}
    (carried : unit = [] ∨ ∃ token, unit = [token] ∧ Written.IsUnit token)
    (spelled : ∀ token ∈ unit, token.Spelled) :
    literals unit = [] ∨ isUnit (literals unit) = true := by
  rcases carried with rfl | ⟨token, rfl, percentage | ⟨-, named⟩⟩
  · exact .inl rfl
  · have written : token.literal = utf8 "%" :=
      (spelled token List.mem_cons_self).fixed _ (by rw [percentage]; rfl)
    exact .inr (by simp [literals, written, isUnit])
  · exact .inr (by simpa [literals] using named)

/-- The number has a sign and marks before it, or a point and one more before it. -/
def Clashes (marks : List Token) (number : Token) : Prop :=
  marks ≠ [] ∧ Byte.hyphen ∈ number.literal ∨
    (∃ mark ∈ marks, mark.kind = .dot) ∧ Byte.dot ∈ number.literal

theorem mem_ofTokens {settings : Settings} {tokens : List Token} {token : Token}
    (member : token ∈ (Parser.ofTokens settings tokens).ahead) : token ∈ tokens := by
  unfold Parser.ofTokens at member
  split at member
  next => exact absurd member List.not_mem_nil
  next =>
    split at member
    next => exact List.mem_of_mem_dropLast member
    next => exact member

/-- Where a value starts with a number, or with a sign and a point right before one, it takes these
marks, one number token and the unit right behind it, and nothing else. What is taken is one number
unless marks and number clash. -/
theorem value_quantity {source : Bytes} {settings : Settings} {room count : Nat} {parser : Parser}
    (here : parser = (Parser.ofTokens settings (tokenize source)).skip count)
    (starts : parser.current.kind = .number ∨ parser.startsNumeric = true) :
    ∃ marks number unit rest, parser.ahead = marks ++ number :: unit ++ rest ∧
      number.kind = .number ∧ (∀ token ∈ marks ++ unit, token.kind ≠ .number) ∧
      value room parser = (some (.basic (literals (marks ++ number :: unit))),
        { parser with ahead := rest }) ∧
      (Bytes.Quantity (literals (marks ++ number :: unit)) ↔ ¬Clashes marks number) := by
  obtain ⟨marks, number, unit, rest, whole, before, is, carried, read⟩ :=
    exists_numeric room starts
  have member (token : Token) (ahead : token ∈ parser.ahead) :
      token ∈ (Parser.ofTokens settings (tokenize source)).ahead := by
    subst here
    exact List.mem_of_mem_drop ahead
  have spelled (token : Token) (ahead : token ∈ parser.ahead) : token.Spelled :=
    Parser.ofTokens_spelled settings source token (member token ahead)
  rw [whole] at member spelled
  obtain ⟨front, point, written, signed, pointed, marked, dotted⟩ :=
    literals_marks before fun token first => spelled token (by simp [first])
  have unitBytes := literals_unit carried fun token last => spelled token (by simp [last])
  obtain ⟨sign, digits, fraction, numeral⟩ :=
    tokenize_numeral (mem_ofTokens (member number (by simp))) is
  have bytes : literals (marks ++ number :: unit) =
      front ++ point ++ number.literal ++ literals unit := by
    rw [← written]
    simp [literals]
  have others : ∀ token ∈ marks ++ unit, token.kind ≠ .number := by
    refine List.forall_mem_append.2 ⟨fun token first => ?_, fun token last => ?_⟩
    · rcases before with rfl | before
      · exact absurd first List.not_mem_nil
      · rcases Parser.kind_of_mark (before.mark token first) with kind | kind | kind <;> simp [kind]
    · rcases carried with rfl | ⟨unit, rfl, isUnit⟩
      · exact absurd last List.not_mem_nil
      · obtain rfl := List.mem_singleton.1 last
        rcases isUnit with kind | ⟨kind, -⟩ <;> simp [kind]
  refine ⟨marks, number, unit, rest, whole, is, others, ?_, ?_⟩
  · rw [read, bytes, written]
  · rw [bytes, numeral.quantity_iff signed pointed unitBytes, marked, dotted]
    rfl

/-- A sign and a point, with a number and a unit behind them. -/
theorem value_quantity_marks :
    ∃ parser : Parser, parser = Parser.ofTokens .standard (tokenize (utf8 "-.5px")) ∧
      parser.startsNumeric = true ∧ (value 0 parser).1 = some (.basic (utf8 "-.5px")) ∧
      Bytes.Quantity (utf8 "-.5px") := by
  have tokens : tokenize (utf8 "-.5px") =
      [⟨.minus, utf8 "-", ⟨1, 1, 0⟩⟩, ⟨.dot, utf8 ".", ⟨1, 2, 1⟩⟩, ⟨.number, utf8 "5", ⟨1, 3, 2⟩⟩,
        ⟨.ident, utf8 "px", ⟨1, 4, 3⟩⟩, .endOfInput ⟨1, 6, 5⟩] := by
    decide +kernel
  have value_eq : (value 0 (Parser.ofTokens .standard (tokenize (utf8 "-.5px")))).1 =
      some (.basic (utf8 "-.5px")) := by
    rw [tokens]
    rfl
  have starts : (Parser.ofTokens .standard (tokenize (utf8 "-.5px"))).startsNumeric = true := by
    rw [tokens]
    rfl
  refine ⟨_, rfl, starts, value_eq, ?_⟩
  obtain ⟨marks, number, unit, rest, whole, is, -, read, quantity⟩ :=
    @value_quantity (utf8 "-.5px") .standard 0 0 _ rfl (.inr starts)
  have bytes : utf8 "-.5px" = literals (marks ++ number :: unit) := by
    have same := value_eq.symm.trans (congrArg Prod.fst read)
    exact Value.basic.inj (Option.some.inj same)
  have digit : number.literal = utf8 "5" := by
    have member : number ∈ tokenize (utf8 "-.5px") := mem_ofTokens (by
      change number ∈ ((Parser.ofTokens .standard (tokenize (utf8 "-.5px"))).skip 0).ahead
      rw [whole]
      simp)
    rw [tokens] at member
    simp only [List.mem_cons, List.not_mem_nil, or_false] at member
    rcases member with rfl | rfl | rfl | rfl | rfl <;> first | rfl | exact absurd is (by decide)
  have plain : Byte.hyphen ∉ number.literal ∧ Byte.dot ∉ number.literal := by
    rw [digit]
    decide
  rw [bytes, quantity]
  exact fun clash => clash.elim (fun signs => plain.1 signs.2) fun points => plain.2 points.2

/-- A sign before a number that has one is taken too, so two signs come out. -/
theorem value_two_signs :
    ¬∀ source settings room count parser,
      parser = (Parser.ofTokens settings (tokenize source)).skip count →
      parser.current.kind = .number ∨ parser.startsNumeric = true →
        ∃ bytes, (value room parser).1 = some (.basic bytes) ∧ Bytes.Quantity bytes := by
  intro all
  have tokens : tokenize (utf8 "+-5") =
      [⟨.plus, utf8 "+", ⟨1, 1, 0⟩⟩, ⟨.number, utf8 "-5", ⟨1, 2, 1⟩⟩, .endOfInput ⟨1, 4, 3⟩] := by
    decide +kernel
  obtain ⟨bytes, read, quantity⟩ :=
    all (utf8 "+-5") .standard 0 0 _ rfl (.inr (by rw [tokens]; rfl))
  rw [tokens] at read
  obtain rfl : utf8 "+-5" = bytes := Value.basic.inj (Option.some.inj read)
  exact absurd quantity.hyphen_tail (by decide)

end Reading

end CssSyntax

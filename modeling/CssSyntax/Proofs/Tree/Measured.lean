import CssSyntax.Proofs.Tree.Depth
import CssSyntax.Proofs.Value.Numeral

/-! What stands behind the number of a plain value: nothing, or one unit. It holds of every plain
value in a tree but the content of an unquoted url, however it came to be there: only a number token
starts with a digit, and a value takes the name behind a number only if it is a unit. -/

namespace CssSyntax

namespace Bytes

def isSign (byte : UInt8) : Bool := byte == 0x2b || byte == Byte.hyphen

def isNumeric (byte : UInt8) : Bool := Byte.isDigit byte || byte == Byte.dot

/-- The text behind its sign, if it has one. -/
def unsigned : Bytes → Bytes
  | [] => []
  | first :: rest => if isSign first then rest else first :: rest

/-- The text behind its point, if it starts with one. -/
def unpointed : Bytes → Bytes
  | [] => []
  | first :: rest => if first = Byte.dot then rest else first :: rest

def unmarked (bytes : Bytes) : Bytes := bytes.unsigned.unpointed

/-- What follows the digits and points that the text starts with. -/
def behindDigits (bytes : Bytes) : Bytes := bytes.dropWhile isNumeric

/-- If the text starts with a digit, but for a sign and a point, nothing but a unit follows its
digits and points. -/
def Measured (bytes : Bytes) : Prop :=
  bytes.unmarked.head?.any Byte.isDigit = true →
    bytes.unmarked.behindDigits = [] ∨ isUnit bytes.unmarked.behindDigits = true

instance (bytes : Bytes) : Decidable bytes.Measured := inferInstanceAs (Decidable (_ → _))

section Marks

variable {front point rest sign digits fraction unit literal : Bytes} {first : UInt8}

theorem unsigned_sign (is : isSign first = true) : unsigned (first :: rest) = rest := if_pos is

theorem unsigned_other (other : isSign first = false) :
    unsigned (first :: rest) = first :: rest :=
  if_neg (Bool.eq_false_iff.1 other)

theorem unpointed_other (other : first ≠ Byte.dot) : unpointed (first :: rest) = first :: rest :=
  if_neg other

theorem unmarked_plain (noSign : isSign first = false) (noPoint : first ≠ Byte.dot) :
    unmarked (first :: rest) = first :: rest := by
  rw [unmarked, unsigned_other noSign, unpointed_other noPoint]

/-- What stands behind a sign and a point, unless it is one of them itself. -/
theorem unmarked_append (signed : front = [] ∨ front = utf8 "+" ∨ front = utf8 "-")
    (pointed : point = [] ∨ point = [Byte.dot]) (noPoint : first ≠ Byte.dot)
    (noSign : isSign first = false ∨ front ++ point ≠ []) :
    unmarked (front ++ point ++ first :: rest) = first :: rest := by
  have behindPoint : unpointed (point ++ first :: rest) = first :: rest := by
    rcases pointed with rfl | rfl
    · exact unpointed_other noPoint
    · rfl
  have alone : unsigned (front ++ (point ++ first :: rest)) = point ++ first :: rest := by
    rcases signed with rfl | rfl | rfl
    · rcases pointed with rfl | rfl
      · exact unsigned_other (noSign.resolve_right fun some => some rfl)
      · rfl
    · rfl
    · rfl
  rw [unmarked, List.append_assoc, alone, behindPoint]

/-- Text that starts with no digit, but for a sign and a point. -/
def Unnumbered (bytes : Bytes) : Prop := bytes.unmarked.head?.any Byte.isDigit = false

theorem Unnumbered.measured {bytes : Bytes} (none : bytes.Unnumbered) : bytes.Measured :=
  fun digit => absurd (none.symm.trans digit) Bool.false_ne_true

theorem isNumeric_lower (byte : UInt8) : isNumeric (Byte.lower byte) = isNumeric byte := by
  have all : ∀ code : Fin 256,
      isNumeric (Byte.lower (UInt8.ofFin code)) = isNumeric (UInt8.ofFin code) := by
    decide +kernel
  exact all byte.toFin

/-- A unit holds neither digits nor points. -/
theorem unit_not_numeric (carried : unit = [] ∨ isUnit unit = true) :
    ∀ byte ∈ unit, isNumeric byte = false := by
  have known : ∀ name ∈ units, ∀ byte ∈ lower (utf8 name), isNumeric byte = false := by
    decide +kernel
  rcases carried with rfl | carried
  · exact List.forall_mem_nil _
  rcases Bool.or_eq_true_iff.1 carried with percentage | named
  · obtain rfl := eq_of_beq percentage
    decide +kernel
  · intro byte member
    obtain ⟨name, listed, same⟩ := List.any_eq_true.1 named
    have spelled : lower (utf8 name) = lower unit := eq_of_beq same
    rw [← isNumeric_lower]
    exact known name listed _ (spelled ▸ List.mem_map_of_mem member)

theorem number_numeric (all : Digits digits) (behind : Fraction fraction) :
    ∀ byte ∈ digits ++ fraction, isNumeric byte = true := by
  have digit {byte : UInt8} (is : Byte.isDigit byte = true) : isNumeric byte = true :=
    Bool.or_eq_true_iff.2 (.inl is)
  refine List.forall_mem_append.2 ⟨fun byte member => digit (all byte member), ?_⟩
  cases behind with
  | none => exact List.forall_mem_nil _
  | point _ others =>
    exact List.forall_mem_cons.2 ⟨rfl, fun byte member => digit (others byte member)⟩

theorem behindDigits_number (all : Digits digits) (behind : Fraction fraction)
    (carried : unit = [] ∨ isUnit unit = true) :
    behindDigits (digits ++ fraction ++ unit) = unit := by
  rw [behindDigits, List.dropWhile_append_of_pos (number_numeric all behind)]
  cases unit with
  | nil => rfl
  | cons first others =>
    have plain := unit_not_numeric carried first List.mem_cons_self
    exact List.dropWhile_cons_of_neg (Bool.eq_false_iff.1 plain)

theorem isSign_of_isDigit (digit : Byte.isDigit first = true) : isSign first = false := by
  by_contra sign
  rcases Bool.or_eq_true_iff.1 (eq_true_of_ne_false sign) with plus | hyphen
  · obtain rfl := eq_of_beq plus
    exact absurd digit (by decide)
  · obtain rfl := eq_of_beq hyphen
    exact absurd digit (by decide)

/-- A number token with marks before it and a unit behind it. Where both bring a sign, or there is
a point before the sign of the token, no number starts behind the marks. -/
theorem Numeral.measured (numeral : Numeral literal sign digits fraction)
    (signed : front = [] ∨ front = utf8 "+" ∨ front = utf8 "-")
    (pointed : point = [] ∨ point = [Byte.dot]) (carried : unit = [] ∨ isUnit unit = true) :
    Measured (front ++ point ++ literal ++ unit) := by
  obtain ⟨rfl, own, some, all, behind⟩ := numeral
  obtain ⟨first, others, rfl⟩ := List.exists_cons_of_ne_nil some
  have digit : Byte.isDigit first = true := all first List.mem_cons_self
  have noPoint : first ≠ Byte.dot := by
    rintro rfl
    exact absurd digit (by decide)
  have counted {bytes : Bytes} (number : bytes.unmarked = first :: others ++ fraction ++ unit) :
      Measured bytes := by
    intro _
    rw [number, behindDigits_number all behind carried]
    exact carried
  rcases own with rfl | rfl
  · have number : unmarked (front ++ point ++ first :: (others ++ fraction ++ unit)) = _ :=
      unmarked_append signed pointed noPoint (.inl (isSign_of_isDigit digit))
    apply counted
    simpa using number
  · by_cases marked : front ++ point = []
    · have number : unmarked (utf8 "-" ++ [] ++ first :: (others ++ fraction ++ unit)) = _ :=
        unmarked_append (.inr (.inr rfl)) (.inl rfl) noPoint (.inl (isSign_of_isDigit digit))
      apply counted
      rw [marked]
      simpa using number
    · have hyphen : unmarked
          (front ++ point ++ Byte.hyphen :: (first :: others ++ fraction ++ unit)) = _ :=
        unmarked_append signed pointed (by decide) (.inr marked)
      have whole : front ++ point ++ (utf8 "-" ++ first :: others ++ fraction) ++ unit =
          front ++ point ++ Byte.hyphen :: (first :: others ++ fraction ++ unit) := by
        simp only [List.append_assoc]
        rfl
      apply Unnumbered.measured
      rw [Unnumbered, whole, hyphen]
      rfl

end Marks

end Bytes

section Tokens

open Bytes

namespace Lexeme

/-- A hyphen starts a number, or a name that goes on with neither a digit nor a point, or it stands
alone. -/
theorem ofHyphen_unnumbered (rest : Bytes) (other : (ofHyphen rest).kind ≠ .number) :
    Unnumbered ((ofHyphen rest).literal Byte.hyphen rest) := by
  cases rest with
  | nil => rfl
  | cons byte more =>
    have behind (count : Nat) (noPoint : byte ≠ Byte.dot) (noDigit : Byte.isDigit byte = false) :
        Unnumbered (Byte.hyphen :: (byte :: more).take count) := by
      cases count with
      | zero => rfl
      | succ count =>
        rw [List.take_succ_cons, Unnumbered, unmarked, unsigned_sign rfl, unpointed_other noPoint]
        exact noDigit
    unfold ofHyphen at other ⊢
    dsimp only at other ⊢
    split
    next double =>
      subst double
      exact behind _ (by decide) rfl
    next single =>
      rw [if_neg single] at other
      split
      next digit =>
        rw [if_pos digit] at other
        exact absurd rfl other
      next noDigit =>
        split
        next starts =>
          refine behind _ ?_ (Bool.eq_false_iff.2 noDigit)
          rintro rfl
          exact absurd starts (by decide)
        next => rfl

/-- Only a number starts with a digit. -/
theorem ofFirst_digit {first : UInt8} (digit : Byte.isDigit first = true) (rest : Bytes) :
    (ofFirst first rest).kind = .number := by
  have known : ∀ code : Fin 256, Byte.isDigit (UInt8.ofFin code) = true →
      Kind.ofPunctuation? (UInt8.ofFin code) = none ∧ UInt8.ofFin code ≠ 0x5e ∧
        UInt8.ofFin code ≠ 0x3a ∧ UInt8.ofFin code ≠ Byte.hash ∧ UInt8.ofFin code ≠ Byte.hyphen ∧
        UInt8.ofFin code ≠ Byte.backslash ∧ UInt8.ofFin code ≠ Byte.slash ∧
        Byte.isQuote (UInt8.ofFin code) = false ∧ Byte.isIdentStart (UInt8.ofFin code) = false := by
    decide +kernel
  obtain ⟨punctuation, caret, colon, hash, hyphen, backslash, slash, quote, name⟩ :
      Kind.ofPunctuation? first = none ∧ first ≠ 0x5e ∧ first ≠ 0x3a ∧ first ≠ Byte.hash ∧
        first ≠ Byte.hyphen ∧ first ≠ Byte.backslash ∧ first ≠ Byte.slash ∧
        Byte.isQuote first = false ∧ Byte.isIdentStart first = false :=
    known first.toFin digit
  simp [ofFirst, punctuation, caret, colon, hash, hyphen, backslash, slash, quote, name, digit]

theorem ofFirst_unnumbered (first : UInt8) (rest : Bytes)
    (other : (ofFirst first rest).kind ≠ .number) :
    Unnumbered ((ofFirst first rest).literal first rest) := by
  by_cases hyphen : first = Byte.hyphen
  · subst hyphen
    exact ofHyphen_unnumbered rest other
  by_cases plus : first = 0x2b
  · subst plus
    rfl
  by_cases dot : first = Byte.dot
  · subst dot
    rfl
  have noSign : isSign first = false := by simp [isSign, plus, hyphen]
  have noDigit : Byte.isDigit first = false :=
    Bool.eq_false_iff.2 fun digit => other (ofFirst_digit digit rest)
  rw [Unnumbered, literal, unmarked_plain noSign dot]
  exact noDigit

end Lexeme

/-- No token of a source starts with a digit behind its sign and point but a number. -/
theorem tokenize_unnumbered {source : Bytes} {token : Token} (member : token ∈ tokenize source)
    (other : token.kind ≠ .number) : token.literal.Unnumbered := by
  obtain ⟨front, back, split⟩ := List.append_of_mem member
  cases tokenize_located split with
  | finish => rfl
  | @lexeme before rest first lexeme split read =>
    subst read
    exact Lexeme.ofFirst_unnumbered first rest other

end Tokens

/-- A token of the source, apart from the end of it. -/
def Token.From (source : Bytes) (token : Token) : Prop :=
  token ∈ tokenize source ∧ token.kind ≠ .eof

theorem Parser.ofTokens_from (settings : Settings) (source : Bytes) :
    ∀ token ∈ (Parser.ofTokens settings (tokenize source)).ahead, token.From source := by
  obtain ⟨front, position, split, _, noEnd⟩ := (tokenize_tiles source).lossless.finish
  rw [split, ofTokens_eq]
  intro token member
  refine ⟨?_, noEnd token member⟩
  rw [split]
  exact List.mem_append_left _ member

/-- Every plain value in the part has nothing but a unit behind its number, unless it is the content
of an unquoted url of the source. -/
inductive Part.Measured (source : Bytes) : Part → Prop
  | basic {bytes : Bytes} (measured : bytes.Measured) : Measured source (.value (.basic bytes))
  | url {token : Token} (member : token ∈ tokenize source) (is : token.kind = .uri) :
      Measured source (.value (Value.ofUri token.literal))
  | inner {part : Part} (other : ∀ bytes, part ≠ .value (.basic bytes))
      (below : ∀ child ∈ part.children, Measured source child) : Measured source part

theorem Part.children_uriContent (inner : Bytes) :
    (Part.value (Value.uriContent inner)).children = [] := by
  unfold Value.uriContent
  split <;> rfl

/-- Below an unquoted url stands its content, and nothing below that. -/
theorem Part.children_ofUri (literal : Bytes) :
    ∃ content, (Part.value (Value.ofUri literal)).children = [.value content] ∧
      (Part.value content).children = [] :=
  ⟨_, rfl, Part.children_uriContent _⟩

/-- A path that ends with a plain value passes the url right before it, or the value has nothing but
a unit behind its number. -/
theorem Part.Measured.last {source bytes : Bytes} {first : Part} {rest : List Part}
    (measured : first.Measured source) (chain : IsPath (first :: rest))
    (last : (first :: rest).getLast? = some (.value (.basic bytes))) :
    bytes.Measured ∨ ∃ front token, token ∈ tokenize source ∧ token.kind = .uri ∧
      first :: rest = front ++ [.value (Value.ofUri token.literal), .value (.basic bytes)] := by
  induction rest generalizing first with
  | nil =>
    have is : first = .value (.basic bytes) := Option.some.inj last
    cases measured with
    | basic measured =>
      obtain rfl : _ = bytes := Value.basic.inj (Part.value.inj is)
      exact .inl measured
    | url => exact absurd (Part.value.inj is) nofun
    | inner other => exact absurd is (other bytes)
  | cons second rest ih =>
    obtain ⟨child, tail⟩ := List.isChain_cons_cons.1 chain
    rw [List.getLast?_cons_cons] at last
    cases measured with
    | basic => exact absurd child List.not_mem_nil
    | @url token member is =>
      obtain ⟨content, whole, leaf⟩ := children_ofUri token.literal
      obtain rfl : second = .value content := List.mem_singleton.1 (whole ▸ child)
      cases rest with
      | nil =>
        obtain rfl : content = .basic bytes := Part.value.inj (Option.some.inj last)
        exact .inr ⟨[], token, member, is, rfl⟩
      | cons third rest =>
        have below := (List.isChain_cons_cons.1 tail).1
        rw [leaf] at below
        exact absurd below List.not_mem_nil
    | inner _ below =>
      rcases ih (below second child) tail last with done | ⟨front, token, member, is, split⟩
      · exact .inl done
      · exact .inr ⟨first :: front, token, member, is, congrArg (first :: ·) split⟩

namespace Grammar

open Reading Gives

variable {α : Type} {source : Bytes} {parser : Parser} {room : Nat}

/-- The result has the property, if the tokens ahead are of the source. -/
abbrev GivesFrom (source : Bytes) (reading : Reading α) (parser : Parser) (holds : α → Prop) :
    Prop :=
  Gives (Token.From source) reading parser holds

def MeasuredValue (source : Bytes) (value : Value) : Prop := (Part.value value).Measured source

def MeasuredDeclaration (source : Bytes) (declaration : Declaration) : Prop :=
  (Part.declaration declaration).Measured source

def MeasuredCondition (source : Bytes) (condition : SupportsCondition) : Prop :=
  (Part.condition condition).Measured source

def MeasuredNode (source : Bytes) (node : Node) : Prop := (Part.node node).Measured source

section Values

theorem measured_call {name : Bytes} {args : List Value} (each : Each (MeasuredValue source) args) :
    MeasuredValue source (.function name args) :=
  .inner nofun (List.forall_mem_map.2 each)

theorem plainValue_measured (notEnd : parser.current.kind ≠ .eof)
    (other : parser.current.kind ≠ .number) :
    GivesFrom source plainValue parser (MeasuredValue source) :=
  knowing notEnd fun known _ => .basic (tokenize_unnumbered known.1 other).measured

theorem uriValue_measured (is : parser.current.kind = .uri) :
    GivesFrom source (tokenValue Value.ofUri) parser (MeasuredValue source) :=
  knowing (is.trans_ne nofun) fun known _ => .url known.1 is

theorem hashValue_measured (is : parser.current.kind = .hash) :
    GivesFrom source hashValue parser (MeasuredValue source) := by
  refine knowing (is.trans_ne nofun) fun known => current (after (after (pure ?_)))
  have written : parser.current.literal = utf8 "#" :=
    (tokenize_spelled source _ known.1 known.2).fixed _ (by rw [is]; rfl)
  rw [written]
  exact .basic (Bytes.Unnumbered.measured rfl)

/-- A number with its marks and its unit. -/
theorem numericValue_measured
    (starts : parser.current.kind = .number ∨ parser.startsNumeric = true) :
    GivesFrom source (value room) parser (IfAny (MeasuredValue source)) := by
  intro known
  obtain ⟨marks, number, unit, rest, whole, before, is, carried, read⟩ := exists_numeric room starts
  rw [whole] at known
  have spelled {token : Token} (member : token ∈ marks ++ number :: unit ++ rest) :
      token.Spelled :=
    tokenize_spelled source token (known token member).1 (known token member).2
  obtain ⟨front, point, written, signed, pointed, -, -⟩ :=
    literals_marks before fun token first => spelled (by simp [first])
  have unitBytes := literals_unit carried fun token last => spelled (by simp [last])
  obtain ⟨sign, digits, fraction, numeral⟩ := tokenize_numeral (known number (by simp)).1 is
  rw [read, written]
  exact IfAny.some (.basic (numeral.measured signed pointed unitBytes))

section Calls

variable {arguments : Reading (List Value)}
variable (inner : ∀ parser, GivesFrom source arguments parser (Each (MeasuredValue source)))
include inner

theorem callWith_measured : GivesFrom source (callWith arguments) parser (MeasuredValue source) :=
  after (after (after (returning (inner _) fun _ => measured_call)))

theorem groupValue_measured :
    GivesFrom source (groupValue arguments) parser (MeasuredValue source) :=
  after (returning (inner _) fun _ => measured_call)

end Calls

theorem value_measured
    (inner : ∀ parser, GivesFrom source (arguments room) parser (Each (MeasuredValue source))) :
    GivesFrom source (value room) parser (IfAny (MeasuredValue source)) := by
  by_cases starts : parser.current.kind = .number ∨ parser.startsNumeric = true
  · exact numericValue_measured starts
  have some {reading : Reading Value}
      (measured : GivesFrom source reading parser (MeasuredValue source)) :
      GivesFrom source (some <$> reading) parser (IfAny (MeasuredValue source)) :=
    map measured fun _ => IfAny.some
  have plain (notEnd : parser.current.kind ≠ .eof) :
      GivesFrom source plainValue parser (MeasuredValue source) :=
    plainValue_measured notEnd fun is => starts (.inl is)
  have mark (notEnd : parser.current.kind ≠ .eof) :
      GivesFrom source markValue parser (MeasuredValue source) :=
    look (ite (fun mark => absurd (.inr mark) starts) fun _ => plain notEnd)
  have dropped : GivesFrom source droppedValue parser (IfAny (MeasuredValue source)) :=
    fun _ => IfAny.none
  apply Gives.current
  split
  next is => exact absurd (.inl is) starts
  next is => exact some (mark (is.trans_ne nofun))
  next is => exact some (mark (is.trans_ne nofun))
  next is => exact some (mark (is.trans_ne nofun))
  next is =>
    exact some (look (ite (fun _ => callWith_measured inner) fun _ => plain (is.trans_ne nofun)))
  next is => exact some (uriValue_measured is)
  next => exact some fun _ => .inner nofun (List.forall_mem_nil _)
  next => exact some (groupValue_measured inner)
  next is => exact some (hashValue_measured is)
  next => exact dropped
  next => exact dropped
  next => exact dropped
  next => exact pure IfAny.none
  next => exact some (plain (by assumption))

theorem separatedValue_measured
    (inner : ∀ parser, GivesFrom source (arguments room) parser (Each (MeasuredValue source))) :
    GivesFrom source (separatedValue (value room)) parser (Each (MeasuredValue source)) := by
  refine current (ite (fun _ => after (pure Each.nil)) fun _ => ?_)
  exact returning (value_measured inner) fun _ => IfAny.toList

theorem arguments_measured (room : Nat) (parser : Parser) :
    GivesFrom source (arguments room) parser (Each (MeasuredValue source)) := by
  induction room generalizing parser with
  | zero => exact after (after (pure Each.nil))
  | succ room ih =>
    have args : GivesFrom source (collect endsArguments (separatedValue (value room))) parser
        (Each (MeasuredValue source)) :=
      collect_gives (fun _ _ => separatedValue_measured ih) parser
    exact bind args fun _ each => after (pure each)

theorem call_measured : GivesFrom source (call room) parser (MeasuredValue source) :=
  callWith_measured (arguments_measured room)

end Values

section Declarations

theorem declarationPart_measured :
    GivesFrom source (declarationPart (value room)) parser
      (Each fun part => IfAny (MeasuredValue source) part.value?) := by
  refine look (ite (fun _ => after (after (pure (Each.single IfAny.none)))) fun _ => ?_)
  refine returning (separatedValue_measured (arguments_measured room)) fun values each => ?_
  exact List.forall_mem_map.2 fun value member => IfAny.some (each value member)

theorem declaration_measured :
    GivesFrom source (declaration room) parser (IfAny (MeasuredDeclaration source)) := by
  have body (key : Bytes) (parser : Parser) :
      GivesFrom source (declarationBody room key) parser (IfAny (MeasuredDeclaration source)) := by
    refine bind (collect_gives (fun _ _ => declarationPart_measured) _) fun parts each => ?_
    refine ite (fun _ => after (pure IfAny.none)) fun _ => pure (IfAny.some ?_)
    refine .inner nofun (List.forall_mem_map.2 fun value member => ?_)
    obtain ⟨part, among, is⟩ := List.mem_filterMap.1 member
    exact each part among value is
  refine current (ite (fun _ => ?_) fun _ => after (after (pure IfAny.none)))
  exact after (after (ite (fun _ => body _ _) fun _ => after (pure IfAny.none)))

theorem blockDeclaration_measured :
    GivesFrom source (blockDeclaration room) parser (Each (MeasuredDeclaration source)) := by
  refine current (ite (fun _ => after (pure Each.nil)) fun _ => ite (fun _ => ?_) fun _ => ?_)
  · exact returning declaration_measured fun _ => IfAny.toList
  · exact after (after (pure Each.nil))

theorem declarationBlock_measured {place : String} :
    GivesFrom source (declarationBlock room place) parser
      (IfAny (Each (MeasuredDeclaration source))) :=
  blockWith_gives fun _ => blockBody_gives fun _ _ => blockDeclaration_measured

end Declarations

section Conditions

theorem supportsValue_measured :
    GivesFrom source (supportsValue room) parser (Each (MeasuredValue source)) := by
  refine look (ite (fun important => ?_) fun _ => separatedValue_measured (arguments_measured room))
  have is : parser.current.kind = .exclamation :=
    currentIs_iff.1 (Bool.and_eq_true_iff.1 important).1
  exact returning (plainValue_measured (is.trans_ne nofun) (is.trans_ne nofun)) fun _ => Each.single

theorem supportsDeclaration_measured :
    GivesFrom source (supportsDeclaration room) parser (MeasuredCondition source) := by
  refine after (after (after ?_))
  refine bind (collect_gives (fun _ _ => supportsValue_measured) _) fun values each => ?_
  exact after (pure (.inner nofun (List.forall_mem_map.2 each)))

theorem supportsCall_measured :
    GivesFrom source (supportsCall room) parser (MeasuredCondition source) :=
  after (after (after (returning (arguments_measured room _) fun _ each =>
    .inner nofun (List.forall_mem_map.2 each))))

theorem group_measured {conditions : List SupportsCondition}
    (each : Each (MeasuredCondition source) conditions) :
    MeasuredCondition source (.group conditions) :=
  .inner nofun (List.forall_mem_map.2 each)

theorem ofSequence_measured {conditions : List SupportsCondition}
    (each : Each (MeasuredCondition source) conditions) :
    MeasuredCondition source (SupportsCondition.ofSequence conditions) := by
  unfold SupportsCondition.ofSequence
  split
  next condition => exact each condition List.mem_cons_self
  next => exact group_measured each

section Groups

variable {group : Reading (Option SupportsCondition)}
variable (inner : ∀ parser, GivesFrom source group parser (IfAny (MeasuredCondition source)))
include inner

theorem supportsNegation_measured :
    GivesFrom source (supportsNegation group) parser (IfAny (MeasuredCondition source)) := by
  refine after (after (look (ite (fun _ => ?_) fun _ => after (pure IfAny.none))))
  refine returning (inner _) fun _ found => found.map fun condition measured => ?_
  exact .inner nofun (List.forall_mem_singleton.2 measured)

theorem supportsName_measured {token : Token} :
    GivesFrom source (supportsName room group token) parser (Each (MeasuredCondition source)) := by
  refine ite (fun _ => ?_) fun _ => ite (fun _ => ?_) fun _ => look (ite (fun _ => ?_) fun _ =>
    look (ite (fun _ => ?_) fun _ => fun _ => Each.nil))
  · exact fun _ => Each.single (.inner nofun (List.forall_mem_nil _))
  · exact returning (supportsNegation_measured inner) fun _ => IfAny.toList
  · exact returning supportsDeclaration_measured fun _ => Each.single
  · exact returning supportsCall_measured fun _ => Each.single

theorem supportsSequence_measured (terminator : Kind) :
    GivesFrom source (supportsSequence room group terminator) parser
      (Each (MeasuredCondition source)) := by
  refine collect_gives (fun parser _ => current ?_) parser
  split
  next => exact after (pure Each.nil)
  next => exact returning (inner _) fun _ => IfAny.toList
  next => exact supportsName_measured inner
  next => exact fun _ => Each.nil

end Groups

theorem supportsGroup_measured (room : Nat) (parser : Parser) :
    GivesFrom source (supportsGroup room) parser (IfAny (MeasuredCondition source)) := by
  induction room generalizing parser with
  | zero => exact fun _ => IfAny.none
  | succ room ih =>
    refine after (bind (supportsSequence_measured ih .closeParen) fun conditions each => ?_)
    refine after (after (pure ?_))
    split
    next => exact IfAny.none
    next => exact IfAny.some (ofSequence_measured each)

theorem supportsCondition_measured (terminator : Kind) :
    GivesFrom source (supportsCondition room terminator) parser (MeasuredCondition source) :=
  map (supportsSequence_measured (supportsGroup_measured room) terminator) fun _ => group_measured

end Conditions

section Statements

theorem url_measured : GivesFrom source (url room) parser (IfAny (MeasuredValue source)) :=
  after (look (ite (fun _ => value_measured (arguments_measured room)) fun _ => pure IfAny.none))

/-- The clauses of an import as far as they were read. -/
structure MeasuredClauses (source : Bytes) (clauses : ImportClauses) : Prop where
  layer : IfAny (MeasuredValue source) clauses.layer
  supports : IfAny (MeasuredCondition source) clauses.supports

theorem layerClause_measured (name : parser.current.kind = .ident) :
    GivesFrom source (layerClause room) parser (MeasuredValue source) :=
  look (ite (fun _ => call_measured) fun _ =>
    plainValue_measured (name.trans_ne nofun) (name.trans_ne nofun))

theorem supportsClause_measured :
    GivesFrom source (supportsClause room) parser (MeasuredCondition source) :=
  after (after (bind (supportsCondition_measured .closeParen) fun _ is => after (pure is)))

theorem importClause_measured {clauses : ImportClauses} (before : MeasuredClauses source clauses) :
    GivesFrom source (importClause room clauses) parser (MeasuredClauses source) := by
  refine current (ite (fun layer => ?_) fun _ => after (ite (fun _ => ?_) fun _ => ite (fun _ => ?_)
    fun _ => after (after (pure before))))
  · refine bind (layerClause_measured (kind_of_isWord layer)) fun layer measured => ?_
    exact returning (keepFirst_gives before.layer measured) fun _ kept => ⟨kept, before.supports⟩
  · refine bind supportsClause_measured fun condition measured => ?_
    exact returning (keepFirst_gives before.supports measured) fun _ kept => ⟨before.layer, kept⟩
  · exact after (pure ⟨before.layer, before.supports⟩)

theorem importRule_measured :
    GivesFrom source (importRule room) parser (IfAny (MeasuredNode source)) := by
  refine bind url_measured fun found measured => ?_
  cases found with
  | none => exact after (after (pure IfAny.none))
  | some address =>
    have steps (clauses : ImportClauses) (parser : Parser)
        (_ : parser.current.isStructural = false) (before : MeasuredClauses source clauses) :
        GivesFrom source (separatedClause room clauses) parser (MeasuredClauses source) :=
      Gives.bind (importClause_measured before) fun _ kept => after (pure kept)
    have none : MeasuredClauses source ⟨none, none, none⟩ := ⟨IfAny.none, IfAny.none⟩
    refine after (Gives.bind (iterate_gives steps none _) fun clauses is => after (pure ?_))
    refine IfAny.some (.inner nofun ?_)
    refine List.forall_mem_cons.2 ⟨measured address rfl, List.forall_mem_append.2 ⟨?_, ?_⟩⟩
    · exact List.forall_mem_map.2 is.layer.toList
    · exact List.forall_mem_map.2 is.supports.toList

theorem charset_measured :
    GivesFrom source charset parser (IfAny (MeasuredNode source)) := by
  refine current (ite (fun _ => ?_) fun _ => after (after (pure IfAny.none)))
  exact after (after (pure (IfAny.some (.inner nofun (List.forall_mem_nil _)))))

theorem namespaceRule_measured :
    GivesFrom source (namespaceRule room) parser (IfAny (MeasuredNode source)) := by
  refine after (Gives.bind url_measured fun found measured => ?_)
  cases found with
  | none => exact after (after (pure IfAny.none))
  | some address =>
    refine after (after (pure (IfAny.some (.inner nofun ?_))))
    exact List.forall_mem_singleton.2 (measured address rfl)

end Statements

section DeclarationRules

/-- A block of declarations, kept as a node of which they are the parts. -/
theorem declarationRule_measured {place : String} {rule : List Declaration → Node}
    (parts : ∀ declarations,
      (Part.node (rule declarations)).children = declarations.map Part.declaration) :
    GivesFrom source (do return (← declarationBlock room place).map rule) parser
      (IfAny (MeasuredNode source)) := by
  refine returning declarationBlock_measured fun _ found => found.map fun declarations each => ?_
  refine .inner nofun ?_
  rw [parts]
  exact List.forall_mem_map.2 each

theorem fontFace_measured :
    GivesFrom source (fontFace room) parser (IfAny (MeasuredNode source)) :=
  declarationRule_measured fun _ => rfl

theorem counterStyle_measured :
    GivesFrom source (counterStyle room) parser (IfAny (MeasuredNode source)) := by
  refine current (ite (fun _ => ?_) fun _ => after (after (pure IfAny.none)))
  exact after (after (declarationRule_measured fun _ => rfl))

theorem colorProfile_measured :
    GivesFrom source (colorProfile room) parser (IfAny (MeasuredNode source)) := by
  apply Gives.current
  split
  next => exact after (after (declarationRule_measured fun _ => rfl))
  next => exact after (after (pure IfAny.none))

theorem page_measured : GivesFrom source (page room) parser (IfAny (MeasuredNode source)) :=
  after (declarationRule_measured fun _ => rfl)

theorem viewport_measured {name : Bytes} :
    GivesFrom source (viewport room name) parser (IfAny (MeasuredNode source)) :=
  declarationRule_measured fun _ => rfl

theorem keyframeStop_measured :
    GivesFrom source (keyframeStop room) parser
      (IfAny fun stop => (Part.stop stop).Measured source) := by
  refine after (look (ite (fun _ => ?_) fun _ => after (pure IfAny.none)))
  refine after (bind declarationBlock_measured fun found each => pure ?_)
  split
  next => exact IfAny.none
  next => exact each.map fun _ inner => .inner nofun (List.forall_mem_map.2 inner)

theorem keyframes_measured {webkit : Bool} :
    GivesFrom source (keyframes room webkit) parser (IfAny (MeasuredNode source)) := by
  have member (parser : Parser) : GivesFrom source (keyframesMember room) parser
      (Each fun stop => (Part.stop stop).Measured source) := by
    refine current (ite (fun _ => after (pure Each.nil)) fun _ => ?_)
    exact returning keyframeStop_measured fun _ => IfAny.toList
  apply Gives.current
  split
  next =>
    refine after (after (blockWith_gives fun parser => ?_))
    refine map (blockBody_gives fun parser _ => member parser) fun stops each => ?_
    exact .inner nofun (List.forall_mem_map.2 each)
  next => exact after (after (pure IfAny.none))

theorem featureMember_measured :
    GivesFrom source (featureMember room) parser
      (Each fun block => (Part.featureBlock block).Measured source) := by
  apply Gives.current
  split
  next => exact after (pure Each.nil)
  next => exact after (pure Each.nil)
  next =>
    refine returning (after (current (ite (fun _ => ?_) fun _ => ?_))) fun _ => IfAny.toList
    · exact after (after (returning declarationBlock_measured fun _ found =>
        found.map fun _ each => .inner nofun (List.forall_mem_map.2 each)))
    · exact after (after (pure IfAny.none))
  next => exact after (after (pure Each.nil))

theorem fontFeatureValues_measured :
    GivesFrom source (fontFeatureValues room) parser (IfAny (MeasuredNode source)) := by
  refine after (look (ite (fun _ => ?_) fun _ => after (after (pure IfAny.none))))
  refine after (after (returning (blockBody_gives fun _ _ => featureMember_measured) ?_))
  exact fun _ each => IfAny.some (.inner nofun (List.forall_mem_map.2 each))

end DeclarationRules

section Rules

theorem ruleSetWith_measured {block : Reading (Option (List Node))}
    (inner : ∀ parser, GivesFrom source block parser (IfAny (Each (MeasuredNode source)))) :
    GivesFrom source (ruleSetWith block) parser (IfAny (MeasuredNode source)) := by
  refine after (look (ite (fun _ => ?_) fun _ => after (pure IfAny.none)))
  exact returning (inner _) fun _ found => found.map fun _ each =>
    .inner nofun (List.forall_mem_map.2 each)

section Inner

variable {ruleSet atRule : Reading (Option Node)}
variable (ruleSets : ∀ parser, GivesFrom source ruleSet parser (IfAny (MeasuredNode source)))
variable (atRules : ∀ parser, GivesFrom source atRule parser (IfAny (MeasuredNode source)))

theorem comment_measured (text : Bytes) : MeasuredNode source (.comment text) :=
  .inner nofun (List.forall_mem_nil _)

section Styles

include ruleSets

theorem styleMember_measured {place : String} {other : Reading (List Node)}
    (others : ∀ parser, GivesFrom source other parser (Each (MeasuredNode source))) :
    GivesFrom source (styleMember room ruleSet atRule place other) parser
      (Each (MeasuredNode source)) := by
  have nested (parser : Parser) :
      GivesFrom source (nodes ruleSet) parser (Each (MeasuredNode source)) :=
    map (ruleSets parser) fun _ => IfAny.toList
  apply Gives.current
  split
  next => exact after (pure Each.nil)
  next => exact comment_gives comment_measured
  next =>
    refine look (ite (fun _ => nested _) fun _ => ?_)
    refine returning declaration_measured fun found each => List.forall_mem_map.2 ?_
    exact fun content member => .inner nofun (List.forall_mem_singleton.2 (each.toList _ member))
  next => exact after (after (pure Each.nil))
  next => exact ite (fun _ => nested _) fun _ => others _

theorem ruleSetBody_measured :
    GivesFrom source (ruleSetBody room ruleSet atRule) parser (Each (MeasuredNode source)) := by
  refine blockBody_gives fun _ _ => styleMember_measured ruleSets fun _ => ?_
  exact after (after (pure Each.nil))

theorem container_measured :
    GivesFrom source (container room ruleSet atRule) parser (IfAny (MeasuredNode source)) := by
  have body (parser : Parser) :
      GivesFrom source (containerBody room ruleSet atRule) parser (Each (MeasuredNode source)) :=
    blockBody_gives fun _ _ => styleMember_measured ruleSets fun _ => after (after (pure Each.nil))
  refine after (after (blockWith_gives fun parser => map (body parser) fun _ each => ?_))
  exact .inner nofun (List.forall_mem_map.2 each)

end Styles

include ruleSets atRules

theorem nestedRules_measured {place : String} :
    GivesFrom source (nestedRules ruleSet atRule place) parser (Each (MeasuredNode source)) := by
  refine blockBody_gives fun parser _ => ?_
  apply Gives.current
  split
  next => exact after (pure Each.nil)
  next => exact comment_gives comment_measured
  next => exact map (atRules _) fun _ => IfAny.toList
  next =>
    refine ite (fun _ => ?_) fun _ => after (after (pure Each.nil))
    exact map (ruleSets _) fun _ => IfAny.toList

theorem supportsRule_measured :
    GivesFrom source (supportsRule room ruleSet atRule) parser (IfAny (MeasuredNode source)) := by
  refine bind (supportsCondition_measured .openBrace) fun condition is => ?_
  refine blockWith_gives fun parser => map (nestedRules_measured ruleSets atRules) ?_
  exact fun _ each => .inner nofun (List.forall_mem_cons.2 ⟨is, List.forall_mem_map.2 each⟩)

theorem layer_measured :
    GivesFrom source (layer ruleSet atRule) parser (IfAny (MeasuredNode source)) := by
  refine after (look (ite (fun _ => ?_) fun _ => look (ite (fun _ => ?_) fun _ => ?_)))
  · exact after (after (pure (IfAny.some (.inner nofun (List.forall_mem_nil _)))))
  · exact after (returning (nestedRules_measured ruleSets atRules) fun _ each =>
      IfAny.some (.inner nofun (List.forall_mem_map.2 each)))
  · exact after (pure IfAny.none)

theorem media_measured :
    GivesFrom source (media ruleSet atRule) parser (IfAny (MeasuredNode source)) := by
  refine after (blockWith_gives fun parser => map (nestedRules_measured ruleSets atRules) ?_)
  exact fun _ each => .inner nofun (List.forall_mem_map.2 each)

theorem atRuleBody_measured (name : Bytes) (rule : AtRule) (parser : Parser) :
    GivesFrom source (atRuleBody room ruleSet atRule name rule) parser
      (IfAny (MeasuredNode source)) := by
  cases rule with
  | media => exact media_measured ruleSets atRules
  | keyframes => exact keyframes_measured
  | webkitKeyframes => exact keyframes_measured
  | importRule => exact importRule_measured
  | charset => exact charset_measured
  | fontFace => exact fontFace_measured
  | fontFeatureValues => exact fontFeatureValues_measured
  | colorProfile => exact colorProfile_measured
  | counterStyle => exact counterStyle_measured
  | container => exact container_measured ruleSets
  | supports => exact supportsRule_measured ruleSets atRules
  | layer => exact layer_measured ruleSets atRules
  | page => exact page_measured
  | namespaceRule => exact namespaceRule_measured
  | viewport => exact viewport_measured

end Inner

/-- What the rules at one room give, wherever they are read. -/
structure RulesMeasured (source : Bytes) (room : Nat) : Prop where
  ruleSet : ∀ parser, GivesFrom source (ruleSet room) parser (IfAny (MeasuredNode source))
  atRule : ∀ parser, GivesFrom source (atRule room) parser (IfAny (MeasuredNode source))

theorem rulesMeasured (source : Bytes) (room : Nat) : RulesMeasured source room := by
  induction room with
  | zero =>
    constructor
    · exact fun parser => ruleSetWith_measured fun _ => after (after (pure IfAny.none))
    · exact fun parser => after (after (pure IfAny.none))
  | succ room inner =>
    constructor
    · intro parser
      refine ruleSetWith_measured fun parser => after ?_
      exact returning (ruleSetBody_measured inner.ruleSet) fun _ => IfAny.some
    · intro parser
      exact atRuleWith_gives (atRuleBody_measured inner.ruleSet inner.atRule)

theorem stylesheet_measured (room : Nat) (parser : Parser) :
    GivesFrom source (stylesheet room) parser
      fun sheet => ∀ rule ∈ sheet.rules, MeasuredNode source rule := by
  have inner := rulesMeasured source room
  refine returning (collect_gives (fun parser _ => current ?_) parser) fun rules each => each
  split
  next => exact comment_gives comment_measured
  next => exact map (inner.atRule _) fun _ => IfAny.toList
  next =>
    refine ite (fun _ => ?_) fun _ => after (after (pure Each.nil))
    exact map (inner.ruleSet _) fun _ => IfAny.toList

end Rules

end Grammar

/-- Whatever the source and the options are, each plain value in the tree has nothing but a unit
behind the number that it starts with, unless it is the content of an unquoted url of the source. -/
theorem parse_measured (options : Options) (source bytes : Bytes) (path : List Part)
    (is : (Report.ofSource options source).stylesheet.Path path)
    (last : path.getLast? = some (.value (.basic bytes))) :
    bytes.Measured ∨ ∃ front token, token ∈ tokenize source ∧ token.kind = .uri ∧
      path = front ++ [.value (Value.ofUri token.literal), .value (.basic bytes)] := by
  have rules := Grammar.stylesheet_measured Grammar.nestingLimit _
    (Parser.ofTokens_from options.settings source)
  cases path with
  | nil => exact absurd last nofun
  | cons first rest =>
    obtain ⟨rule, among, rfl⟩ := List.mem_map.1 (is.start first rfl)
    exact Part.Measured.last (rules rule among) is.chain last

/-- The text of a plain value. -/
def Part.plain? : Part → Option Bytes
  | .value (.basic bytes) => some bytes
  | _ => none

theorem Part.eq_of_plain? {part : Part} {bytes : Bytes} (is : part.plain? = some bytes) :
    part = .value (.basic bytes) := by
  unfold plain? at is
  split at is
  next => rw [Option.some.inj is]
  next => exact absurd is.symm (Option.some_ne_none bytes)

/-- A number with a sign, a point and a unit, as the argument of a call. -/
theorem parse_measured_number :
    ∃ path bytes, (Report.ofSource .standard (utf8 "a { b: f(-.5px) }")).stylesheet.Path path ∧
      path.getLast? = some (.value (.basic bytes)) ∧ bytes = utf8 "-.5px" ∧
      (bytes.Measured ∨ ∃ front token, token ∈ tokenize (utf8 "a { b: f(-.5px) }") ∧
        token.kind = .uri ∧
          path = front ++ [.value (Value.ofUri token.literal), .value (.basic bytes)]) := by
  have number : (((Report.ofSource .standard (utf8 "a { b: f(-.5px) }")).stylesheet.rules.map
      Part.node).head?.bind fun rule => rule.children.head?.bind fun member =>
        member.children.head?.bind fun declared => declared.children.head?.bind fun call =>
          call.children.head?.bind Part.plain?) = some (utf8 "-.5px") := by
    decide +kernel
  obtain ⟨rule, first, number⟩ := Option.bind_eq_some_iff.1 number
  obtain ⟨member, second, number⟩ := Option.bind_eq_some_iff.1 number
  obtain ⟨declared, third, number⟩ := Option.bind_eq_some_iff.1 number
  obtain ⟨call, fourth, number⟩ := Option.bind_eq_some_iff.1 number
  obtain ⟨argument, fifth, number⟩ := Option.bind_eq_some_iff.1 number
  obtain rfl := Part.eq_of_plain? number
  have is : (Report.ofSource .standard (utf8 "a { b: f(-.5px) }")).stylesheet.Path
      [rule, member, declared, call, .value (.basic (utf8 "-.5px"))] := by
    constructor
    · intro start head
      obtain rfl := Option.some.inj head
      exact List.mem_of_head? first
    · simp only [Part.IsPath, List.isChain_cons_cons, List.isChain_singleton, and_true]
      exact ⟨List.mem_of_head? second, List.mem_of_head? third, List.mem_of_head? fourth,
        List.mem_of_head? fifth⟩
  exact ⟨_, _, is, rfl, rfl, parse_measured .standard _ _ _ is rfl⟩

end CssSyntax

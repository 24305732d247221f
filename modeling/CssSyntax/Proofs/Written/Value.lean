import CssSyntax.Proofs.Grammar.Progress
import CssSyntax.Proofs.Nesting.Skip
import CssSyntax.Proofs.Parser.Reads

/-! Values as they are written, and that they are read as the values they were written for. -/

namespace CssSyntax.Written

/-- A token that belongs to the number right before it. -/
def IsUnit (token : Token) : Prop :=
  token.kind = .percentage ∨ token.kind = .ident ∧ isUnit token.literal

/-- Tokens and the values that they stand for, with at most `room` groups inside one another. A
parenthesis after a name always opens a call, so a group is not written there, and a unit right
after a number always belongs to it. Commas may stand anywhere between values. -/
inductive Values : Nat → List Token → List Value → Prop
  | nil {room : Nat} : Values room [] []
  | comma {room : Nat} {comma : Token} {rest : List Token} {values : List Value}
      (is : comma.kind = .comma) (later : Values room rest values) :
      Values room (comma :: rest) values
  | name {room : Nat} {name : Token} {rest : List Token} {values : List Value}
      (is : name.kind = .ident) (alone : ∀ next ∈ rest.head?, next.kind ≠ .openParen)
      (later : Values room rest values) :
      Values room (name :: rest) (.basic name.literal :: values)
  | color {room : Nat} {color : Token} {rest : List Token} {values : List Value}
      (is : color.kind = .color) (later : Values room rest values) :
      Values room (color :: rest) (.basic color.literal :: values)
  | string {room : Nat} {string : Token} {rest : List Token} {values : List Value}
      (is : string.kind = .string) (later : Values room rest values) :
      Values room (string :: rest) (.string (.ofLiteral string.literal) :: values)
  | number {room : Nat} {number : Token} {rest : List Token} {values : List Value}
      (is : number.kind = .number)
      (apart : ∀ next ∈ rest.head?, IsUnit next → number.stop ≠ next.start.offset)
      (later : Values room rest values) :
      Values room (number :: rest) (.basic number.literal :: values)
  | quantity {room : Nat} {number unit : Token} {rest : List Token} {values : List Value}
      (is : number.kind = .number) (carried : IsUnit unit)
      (adjacent : number.stop = unit.start.offset) (later : Values room rest values) :
      Values room (number :: unit :: rest) (.basic (number.literal ++ unit.literal) :: values)
  | call {room : Nat} {name opening closing : Token} {inner rest : List Token}
      {args values : List Value} (is : name.kind = .ident) (opens : opening.kind = .openParen)
      (inside : Values room inner args) (closes : closing.kind = .closeParen)
      (later : Values (room + 1) rest values) :
      Values (room + 1) (name :: opening :: (inner ++ closing :: rest))
        (.function name.literal args :: values)
  | group {room : Nat} {opening closing : Token} {inner rest : List Token}
      {args values : List Value} (opens : opening.kind = .openParen)
      (inside : Values room inner args) (closes : closing.kind = .closeParen)
      (later : Values (room + 1) rest values) :
      Values (room + 1) (opening :: (inner ++ closing :: rest)) (.function [] args :: values)

theorem IsUnit.plain {token : Token} (carried : IsUnit token) : token.isStructural = false := by
  rcases carried with percentage | ⟨word, _⟩
  · exact Token.isStructural_of_kind percentage
  · exact Token.isStructural_of_kind word

/-- A token that ends a block or a declaration is no part of values. -/
theorem Values.plain {room : Nat} {tokens : List Token} {values : List Value}
    (written : Values room tokens values) : ∀ token ∈ tokens, token.isStructural = false := by
  induction written with
  | nil => exact List.forall_mem_nil _
  | comma is _ ih => exact List.forall_mem_cons.2 ⟨Token.isStructural_of_kind is, ih⟩
  | name is _ _ ih => exact List.forall_mem_cons.2 ⟨Token.isStructural_of_kind is, ih⟩
  | color is _ ih => exact List.forall_mem_cons.2 ⟨Token.isStructural_of_kind is, ih⟩
  | string is _ ih => exact List.forall_mem_cons.2 ⟨Token.isStructural_of_kind is, ih⟩
  | number is _ _ ih => exact List.forall_mem_cons.2 ⟨Token.isStructural_of_kind is, ih⟩
  | quantity is carried _ _ ih =>
    have unit := carried.plain
    exact List.forall_mem_cons.2 ⟨Token.isStructural_of_kind is, List.forall_mem_cons.2 ⟨unit, ih⟩⟩
  | call is opens _ closes _ inside ih =>
    simp only [List.forall_mem_cons, List.forall_mem_append]
    exact ⟨Token.isStructural_of_kind is, Token.isStructural_of_kind opens, inside,
      Token.isStructural_of_kind closes, ih⟩
  | group opens _ closes _ inside ih =>
    simp only [List.forall_mem_cons, List.forall_mem_append]
    exact ⟨Token.isStructural_of_kind opens, inside, Token.isStructural_of_kind closes, ih⟩

theorem exists_less {room more : Nat} (within : room + 1 ≤ more) :
    ∃ less, more = less + 1 ∧ room ≤ less :=
  ⟨more - 1, by omega, by omega⟩

/-- What is written with some room is written with more. -/
theorem Values.mono {room more : Nat} {tokens : List Token} {values : List Value}
    (written : Values room tokens values) (within : room ≤ more) : Values more tokens values := by
  induction written generalizing more with
  | nil => exact .nil
  | comma is _ ih => exact .comma is (ih within)
  | name is alone _ ih => exact .name is alone (ih within)
  | color is _ ih => exact .color is (ih within)
  | string is _ ih => exact .string is (ih within)
  | number is apart _ ih => exact .number is apart (ih within)
  | quantity is carried adjacent _ ih => exact .quantity is carried adjacent (ih within)
  | call is opens _ closes _ inside ih =>
    obtain ⟨less, rfl, fits⟩ := exists_less within
    exact .call is opens (inside fits) closes (ih within)
  | group opens _ closes _ inside ih =>
    obtain ⟨less, rfl, fits⟩ := exists_less within
    exact .group opens (inside fits) closes (ih within)

open Grammar Reading

variable {room : Nat} {token number unit name opening closing : Token}
variable {tokens rest inner : List Token} {args values : List Value} {result : Value}

section Single

theorem tokenValue_reads {meaning : Bytes → Value} :
    (tokenValue meaning).Reads [token] rest (meaning token.literal) :=
  .current rfl (.advancing .pure)

theorem name_reads (is : name.kind = .ident)
    (alone : ∀ next ∈ rest.head?, next.kind ≠ .openParen) :
    (value room).Reads [name] rest (some (.basic name.literal)) := by
  refine .current rfl ?_
  simp only [is]
  exact .map (.nextIsOther alone nofun tokenValue_reads)

theorem color_reads (is : token.kind = .color) :
    (value room).Reads [token] rest (some (.basic token.literal)) := by
  refine .current rfl ?_
  simp only [is]
  exact .map tokenValue_reads

theorem string_reads (is : token.kind = .string) :
    (value room).Reads [token] rest (some (.string (.ofLiteral token.literal))) := by
  refine .current rfl ?_
  simp only [is]
  exact .map tokenValue_reads

/-- Signs and points before a number are read with it, and with what may belong to it. -/
theorem numeric_reads {bytes : Bytes} {front : List Token}
    (marks : ∀ token ∈ front, (Parser.isSign token || token.kind == .dot) = true)
    (is : number.kind = .number)
    (carried : (numberWithUnit number).Reads (number :: tokens) rest bytes) :
    numeric.Reads (front ++ number :: tokens) rest (literals front ++ bytes) := by
  have stretch : Span.marks (front ++ (number :: tokens ++ rest)) = front.length := by
    have going : ∀ token ∈ front, (!!(Parser.isSign token || token.kind == .dot)) = true := by
      simpa only [Bool.not_not] using marks
    unfold Span.marks Span.before
    rw [List.takeWhile_append_of_pos going, List.cons_append,
      List.takeWhile_cons_of_neg (by simp [Parser.isSign, is]), List.append_nil]
  refine .bind (.take stretch) (.current rfl ?_)
  rw [if_pos is]
  exact .returning carried

/-- A number has no marks before it, so what is read is the number and what may belong to it. -/
theorem number_reads {bytes : Bytes} (is : number.kind = .number)
    (carried : (numberWithUnit number).Reads (number :: tokens) rest bytes) :
    (value room).Reads (number :: tokens) rest (some (.basic bytes)) := by
  have read : numeric.Reads (number :: tokens) rest bytes :=
    numeric_reads (List.forall_mem_nil _) is carried
  refine .current rfl ?_
  simp only [is]
  exact .map (.map read)

theorem unitFollows_iff {parser : Parser} (ahead : parser.ahead = number :: rest) :
    parser.unitFollows = true ↔
      ∃ next ∈ rest.head?, IsUnit next ∧ number.stop = next.start.offset := by
  unfold Parser.unitFollows Parser.isAdjacent Parser.nextIs Parser.next Parser.nth
  rw [ahead]
  cases rest with
  | nil => simp [Token.endOfInput]
  | cons next others => grind [IsUnit]

theorem numberAlone_reads
    (apart : ∀ next ∈ rest.head?, IsUnit next → number.stop ≠ next.start.offset) :
    (numberWithUnit number).Reads [number] rest number.literal := by
  refine .look_false (fun parser ahead => ?_) (.advancing .pure)
  rw [unitFollows_iff ahead]
  rintro ⟨next, first, carried, adjacent⟩
  exact apart next first carried adjacent

theorem quantity_reads (carried : IsUnit unit) (adjacent : number.stop = unit.start.offset) :
    (numberWithUnit number).Reads [number, unit] rest (number.literal ++ unit.literal) := by
  refine .look_true (fun parser ahead => ?_) ?_
  · exact (unitFollows_iff ahead).2 ⟨unit, rfl, carried, adjacent⟩
  · exact .advancing (.current rfl (.advancing .pure))

/-- A value is read between separators as it is read alone. -/
theorem separated_reads (is : token.kind ≠ .comma ∧ token.kind ≠ .comment)
    (alone : (value room).Reads (token :: tokens) rest (some result)) :
    (separatedValue (value room)).Reads (token :: tokens) rest [result] := by
  refine .current rfl ?_
  rw [if_neg fun separator => separator.elim is.1 is.2]
  exact .returning alone

theorem comma_reads (is : token.kind = .comma) :
    (separatedValue (value room)).Reads [token] rest [] := by
  refine .current rfl ?_
  rw [if_pos (.inl is)]
  exact .advancing .pure

/-- Where the items of a list of arguments are read, the list is. -/
theorem arguments_reads (closes : closing.kind = .closeParen)
    (inside : (collect endsArguments (separatedValue (value room))).Reads inner
      (closing :: rest) args) :
    (arguments (room + 1)).Reads (inner ++ [closing]) rest args := by
  have close : closeArguments.Reads [closing] rest () := by
    refine .current rfl ?_
    rw [if_pos closes]
    exact .advance
  exact .bind inside (.returning close)

theorem call_reads (is : name.kind = .ident) (opens : opening.kind = .openParen)
    (inside : (arguments room).Reads tokens rest args) :
    (value room).Reads (name :: opening :: tokens) rest
      (some (.function name.literal args)) := by
  refine .current rfl ?_
  simp only [is]
  exact .map (.nextIs rfl opens nofun (.current rfl (.advancing (.advancing (.returning inside)))))

theorem group_reads (opens : opening.kind = .openParen)
    (inside : (arguments room).Reads tokens rest args) :
    (value room).Reads (opening :: tokens) rest (some (.function [] args)) := by
  refine .current rfl ?_
  simp only [opens]
  exact .map (.advancing (.returning inside))

end Single

section Loop

/-- The kinds of token that a value or a separator starts with. -/
def startsValue : Kind → Bool
  | .comma => true
  | .ident => true
  | .color => true
  | .string => true
  | .number => true
  | .openParen => true
  | _ => false

/-- No mark of importance stands where a value starts. -/
theorem unmarked_reads {α : Type} {next : Bool → Reading α} {final : α}
    (starts : startsValue token.kind = true)
    (far : (next false).Reads (token :: tokens) rest final) :
    (importantFollows >>= next).Reads (token :: tokens) rest final := by
  refine .look_false (fun parser ahead marked => ?_) far
  have here : parser.current = token := current_of_head (ahead ▸ rfl)
  have mark := currentIs_iff.1 (Bool.and_eq_true_iff.1 marked).1
  rw [here] at mark
  rw [mark] at starts
  exact Bool.false_ne_true starts

/-- A loop that reads values, each kept in some form, and goes on wherever a value starts. -/
structure ValueLoop (room : Nat) {α : Type} (stop : Token → Bool) (item : Reading (List α))
    (form : Value → α) : Prop where
  advances : Advances stop item
  going : ∀ token, startsValue token.kind = true → stop token = false
  reads : ∀ {token tokens rest values}, startsValue token.kind = true →
    (separatedValue (value room)).Reads (token :: tokens) rest values →
      item.Reads (token :: tokens) rest (values.map form)

/-- What stands behind values ends them: it opens no group and is no unit. -/
def EndsValues (tokens : List Token) : Prop :=
  ∀ next ∈ tokens.head?, next.kind ≠ .openParen ∧ ¬IsUnit next

theorem endsValues_cons (other : token.kind ≠ .openParen ∧ token.kind ≠ .percentage ∧
    token.kind ≠ .ident) (rest : List Token) : EndsValues (token :: rest) := by
  intro next first
  obtain rfl := Option.some.inj first
  exact ⟨other.1, fun carried => carried.elim other.2.1 fun word => other.2.2 word.1⟩

/-- Every loop over values reads the values from the tokens, and goes on behind them. -/
structure ReadInLoops (room : Nat) (tokens : List Token) (values : List Value) : Prop where
  further {α : Type} {stop : Token → Bool} {item : Reading (List α)} {form : Value → α}
    {more rest : List Token} {others : List α} :
    ValueLoop room stop item form → EndsValues (more ++ rest) →
      (collect stop item).Reads more rest others →
        (collect stop item).Reads (tokens ++ more) rest (values.map form ++ others)

namespace ReadInLoops

theorem cons {found : List Value} (later : ReadInLoops room rest values)
    (starts : startsValue token.kind = true)
    (first : ∀ behind, EndsValues behind →
      (separatedValue (value room)).Reads (token :: tokens) (rest ++ behind) found) :
    ReadInLoops room (token :: tokens ++ rest) (found ++ values) where
  further {α stop item form more back others} loop ends behind := by
    have near := first (more ++ back) ends
    rw [← List.append_assoc] at near
    rw [List.append_assoc, List.map_append, List.append_assoc]
    exact .collect_cons loop.advances (loop.going token starts) (loop.reads starts near)
      (later.further loop ends behind)

/-- One more value in front. -/
theorem value (later : ReadInLoops room rest values) (starts : startsValue token.kind = true)
    (other : token.kind ≠ .comma)
    (first : ∀ behind, EndsValues behind →
      (value room).Reads (token :: tokens) (rest ++ behind) (some result)) :
    ReadInLoops room (token :: tokens ++ rest) (result :: values) := by
  have comment : token.kind ≠ .comment := by
    intro is
    rw [is] at starts
    exact Bool.false_ne_true starts
  exact later.cons starts fun behind ends => separated_reads ⟨other, comment⟩ (first behind ends)

/-- Values up to the token that ends the loop. -/
theorem whole {α : Type} {stop : Token → Bool} {item : Reading (List α)} {form : Value → α}
    (inLoops : ReadInLoops room tokens values) (loop : ValueLoop room stop item form)
    (ends : EndsValues (token :: rest)) (stopped : stop token = true) :
    (collect stop item).Reads tokens (token :: rest) (values.map form) := by
  have none : (collect stop item).Reads [] (token :: rest) [] := .collect_nil stopped
  have all := inLoops.further loop ends none
  rwa [List.append_nil, List.append_nil] at all

theorem arguments_loop (room : Nat) :
    ValueLoop room endsArguments (separatedValue (Grammar.value room)) id where
  advances := separatedValue_advances
  going token starts := by
    unfold endsArguments
    cases kind : token.kind <;> simp_all [startsValue]
  reads _ reads := by rwa [List.map_id]

/-- Arguments with the parenthesis that closes them. -/
theorem arguments (inside : ReadInLoops room inner args) (closes : closing.kind = .closeParen) :
    (arguments (room + 1)).Reads (inner ++ [closing]) rest args := by
  have ends : EndsValues (closing :: rest) := endsValues_cons (by simp [closes]) rest
  have stopped : endsArguments closing = true := by simp [endsArguments, closes]
  have read := inside.whole (arguments_loop room) ends stopped
  rw [List.map_id] at read
  exact arguments_reads closes read

end ReadInLoops

/-- Values that are written right are read in every loop over values. -/
theorem Values.reads (written : Values room tokens values) : ReadInLoops room tokens values := by
  induction written with
  | nil => exact ⟨fun _ _ behind => behind⟩
  | comma is _ ih =>
    have read := ih.cons (congrArg startsValue is) fun _ _ => comma_reads is
    exact read
  | name is alone _ ih =>
    have read := ih.value (congrArg startsValue is) (by simp [is]) fun behind ends =>
      name_reads is (head_append alone fun next first => (ends next first).1)
    exact read
  | color is _ ih =>
    have read := ih.value (congrArg startsValue is) (by simp [is]) fun _ _ => color_reads is
    exact read
  | string is _ ih =>
    have read := ih.value (congrArg startsValue is) (by simp [is]) fun _ _ => string_reads is
    exact read
  | number is apart _ ih =>
    have read := ih.value (congrArg startsValue is) (by simp [is]) fun behind ends =>
      number_reads is (numberAlone_reads
        (head_append apart fun next first carried => absurd carried (ends next first).2))
    exact read
  | quantity is carried adjacent _ ih =>
    have read := ih.value (congrArg startsValue is) (by simp [is]) fun _ _ =>
      number_reads is (quantity_reads carried adjacent)
    exact read
  | call is opens _ closes _ inside ih =>
    have read := ih.value (congrArg startsValue is) (by simp [is]) fun _ _ =>
      call_reads is opens (inside.arguments closes)
    simpa using read
  | group opens _ closes _ inside ih =>
    have read := ih.value (congrArg startsValue opens) (by simp [opens]) fun _ _ =>
      group_reads opens (inside.arguments closes)
    simpa using read

end Loop

end CssSyntax.Written

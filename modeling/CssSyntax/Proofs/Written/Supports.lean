import Mathlib.Logic.Relation
import CssSyntax.Proofs.Written.RuleSet

/-! Support conditions as they are written, and that they are read as the trees that they were
written for. Parentheses around parentheses change nothing. -/

namespace CssSyntax.Written

open Grammar Reading

/-- A name that a declaration or a call may have in a condition. -/
structure IsConditionName (token : Token) : Prop where
  is : token.kind = .ident
  notAnd : token.isWord Word.andWord = false
  notOr : token.isWord Word.orWord = false
  notNot : token.isWord Word.notWord = false

mutual

/-- Tokens and the conditions that they stand for, with at most `room` parentheses inside one
another. -/
inductive Conditions : Nat → List Token → List SupportsCondition → Prop
  | nil {room : Nat} : Conditions room [] []
  | operator {room : Nat} {word : Token} {rest : List Token} {conditions : List SupportsCondition}
      (spells : word.isWord Word.andWord = true ∨ word.isWord Word.orWord = true)
      (later : Conditions room rest conditions) :
      Conditions room (word :: rest) (.operator word.literal :: conditions)
  | call {room : Nat} {name opening closing : Token} {inner rest : List Token}
      {args : List Value} {conditions : List SupportsCondition} (named : IsConditionName name)
      (opens : opening.kind = .openParen) (inside : Values room inner args)
      (closes : closing.kind = .closeParen) (later : Conditions (room + 1) rest conditions) :
      Conditions (room + 1) (name :: opening :: (inner ++ closing :: rest))
        (.function name.literal args :: conditions)
  | enclosed {room : Nat} {front rest : List Token} {condition : SupportsCondition}
      {conditions : List SupportsCondition} (first : Enclosed room front condition)
      (later : Conditions room rest conditions) :
      Conditions room (front ++ rest) (condition :: conditions)
  | negated {room : Nat} {word : Token} {front rest : List Token} {condition : SupportsCondition}
      {conditions : List SupportsCondition} (spells : word.isWord Word.notWord = true)
      (first : Enclosed room front condition) (later : Conditions room rest conditions) :
      Conditions room (word :: (front ++ rest)) (.not condition :: conditions)

/-- Tokens from a parenthesis to its counterpart, and the one condition that they stand for. A
condition may have any number of parentheses around it. -/
inductive Enclosed : Nat → List Token → SupportsCondition → Prop
  | declaration {room : Nat} {opening key colon closing : Token} {tokens : List Token}
      {values : List Value} (opens : opening.kind = .openParen) (named : IsConditionName key)
      (follows : colon.kind = .colon) (written : Values room tokens values) (some : values ≠ [])
      (closes : closing.kind = .closeParen) :
      Enclosed (room + 1) (opening :: key :: colon :: (tokens ++ [closing]))
        (.declaration key.literal values)
  | single {room : Nat} {opening closing : Token} {inner : List Token}
      {condition : SupportsCondition} (opens : opening.kind = .openParen)
      (inside : Conditions room inner [condition]) (closes : closing.kind = .closeParen) :
      Enclosed (room + 1) (opening :: (inner ++ [closing])) condition
  | group {room : Nat} {opening closing : Token} {inner : List Token}
      {conditions : List SupportsCondition} (opens : opening.kind = .openParen)
      (inside : Conditions room inner conditions) (several : 2 ≤ conditions.length)
      (closes : closing.kind = .closeParen) :
      Enclosed (room + 1) (opening :: (inner ++ [closing])) (.group conditions)

end

/-- The tokens around a condition in parentheses, which may have `depth` parentheses inside one
another, and the conditions that they and it stand for. -/
inductive Around : Nat → Nat → List Token → List Token →
    (SupportsCondition → List SupportsCondition) → Prop
  | among {room : Nat} {before after : List Token} {earlier later : List SupportsCondition}
      (front : Conditions room before earlier) (back : Conditions room after later) :
      Around room room before after fun condition => earlier ++ condition :: later
  | negated {room : Nat} {word : Token} {before after : List Token}
      {earlier later : List SupportsCondition} (front : Conditions room before earlier)
      (spells : word.isWord Word.notWord = true) (back : Conditions room after later) :
      Around room room (before ++ [word]) after fun condition => earlier ++ .not condition :: later
  | nested {room middle depth : Nat} {opening closing : Token}
      {front before after back : List Token}
      {outer inner : SupportsCondition → List SupportsCondition}
      (outside : Around room (middle + 1) front back outer) (opens : opening.kind = .openParen)
      (inside : Around middle depth before after inner) (closes : closing.kind = .closeParen) :
      Around room depth (front ++ opening :: before) (after ++ closing :: back)
        fun condition => outer (.ofSequence (inner condition))

/-- One more pair of parentheses around a condition in parentheses, somewhere in tokens that nest
at most `room` deep with it. -/
inductive Wraps (room : Nat) : List Token → List Token → Prop
  | intro {depth : Nat} {opening closing : Token} {front back tokens : List Token}
      {condition : SupportsCondition} {make : SupportsCondition → List SupportsCondition}
      (around : Around room (depth + 1) front back make) (opens : opening.kind = .openParen)
      (inside : Enclosed depth tokens condition) (closes : closing.kind = .closeParen) :
      Wraps room (front ++ (tokens ++ back))
        (front ++ (opening :: (tokens ++ [closing]) ++ back))

variable {room more : Nat} {token name word key colon opening closing : Token}
variable {tokens rest inner front back : List Token} {args values : List Value}
variable {condition : SupportsCondition} {conditions others : List SupportsCondition}

section Parts

theorem operator_reads (spells : word.isWord Word.andWord = true ∨ word.isWord Word.orWord = true) :
    (supportsPart room (supportsGroup room)).Reads [word] rest [.operator word.literal] := by
  have is : word.kind = .ident := spells.elim kind_of_isWord kind_of_isWord
  refine .current rfl ?_
  simp only [is]
  unfold supportsName
  rw [if_pos (Bool.or_eq_true_iff.2 spells)]
  exact .returning (.advancing .pure)

/-- A name that is no word of the grammar is told by the token behind it. -/
theorem conditionName_reads (named : IsConditionName name)
    (read : (do
      if ← nextIs .colon then return [← supportsDeclaration room]
      else if ← nextIs .openParen then return [← supportsCall room]
      else dropSupportsToken : Reading (List SupportsCondition)).Reads (name :: tokens) rest
        conditions) :
    (supportsPart room (supportsGroup room)).Reads (name :: tokens) rest conditions := by
  obtain ⟨is, notAnd, notOr, notNot⟩ := named
  refine .current rfl ?_
  simp only [is]
  unfold supportsName
  rw [notAnd, notOr, notNot]
  exact read

/-- A name before a call. -/
theorem conditionCall_reads (named : IsConditionName name) (opens : opening.kind = .openParen)
    (inside : (arguments room).Reads tokens rest args) :
    (supportsPart room (supportsGroup room)).Reads (name :: opening :: tokens) rest
      [.function name.literal args] := by
  have call : (supportsCall room).Reads (name :: opening :: tokens) rest
      (.function name.literal args) :=
    .current rfl (.advancing (.advancing (.returning inside)))
  refine conditionName_reads named (.nextIsOther (fun next second => ?_) nofun
    (.nextIs rfl opens nofun (.returning call)))
  obtain rfl := Option.some.inj second
  simp [opens]

theorem supportsDeclaration_loop (room : Nat) :
    ValueLoop room endsSupportsDeclaration (supportsValue room) id where
  advances := supportsValue_advances
  going token starts := by
    unfold endsSupportsDeclaration Token.isStructural
    cases kind : token.kind <;> simp_all [startsValue]
  reads starts alone := by
    rw [List.map_id]
    exact unmarked_reads starts alone

theorem supportsDeclaration_reads (named : IsConditionName key) (follows : colon.kind = .colon)
    (written : Values room tokens values) (some : values ≠ [])
    (closes : closing.kind = .closeParen) :
    (supportsPart room (supportsGroup room)).Reads (key :: colon :: tokens) (closing :: rest)
      [.declaration key.literal values] := by
  have ends : EndsValues (closing :: rest) := endsValues_cons (by simp [closes]) rest
  have stopped : endsSupportsDeclaration closing = true := by
    simp [endsSupportsDeclaration, closes]
  have loop := written.reads.whole (supportsDeclaration_loop room) ends stopped
  rw [List.map_id] at loop
  have valued : values.isEmpty = false := List.isEmpty_eq_false_iff.2 some
  have declaration : (supportsDeclaration room).Reads (key :: colon :: tokens) (closing :: rest)
      (.declaration key.literal values) := by
    refine .current rfl (.advancing (.advancing (.last loop ?_)))
    rw [valued]
    exact .last .pure .pure
  exact conditionName_reads named (.nextIs rfl follows nofun (.returning declaration))

theorem enclosed_reads (opens : opening.kind = .openParen)
    (read : (supportsGroup room).Reads (opening :: tokens) rest (some condition)) :
    (supportsPart room (supportsGroup room)).Reads (opening :: tokens) rest [condition] := by
  refine .current rfl ?_
  simp only [opens]
  exact .map read

theorem negated_reads (spells : word.isWord Word.notWord = true)
    (opens : opening.kind = .openParen)
    (read : (supportsGroup room).Reads (opening :: tokens) rest (some condition)) :
    (supportsPart room (supportsGroup room)).Reads (word :: opening :: tokens) rest
      [.not condition] := by
  have is : word.kind = .ident := kind_of_isWord spells
  have negation : (supportsNegation (supportsGroup room)).Reads (word :: opening :: tokens) rest
      (some (.not condition)) :=
    .advancing (.noComments rfl (by simp [opens]) (.currentIs rfl opens (.returning read)))
  have notAnd : word.isWord Word.andWord = false := Token.isWord_other spells (by decide)
  have notOr : word.isWord Word.orWord = false := Token.isWord_other spells (by decide)
  refine .current rfl ?_
  simp only [is]
  unfold supportsName
  rw [notAnd, notOr, spells]
  exact .returning negation

/-- The parentheses are read with the conditions inside, which must be some. -/
theorem supportsGroup_reads
    (inside : (supportsSequence room (supportsGroup room) closing.kind).Reads inner
      (closing :: rest) conditions)
    (some : conditions ≠ []) (closes : closing.kind = .closeParen) :
    (supportsGroup (room + 1)).Reads (opening :: (inner ++ [closing])) rest
      (Option.some (.ofSequence conditions)) := by
  rw [closes] at inside
  have valued : conditions.isEmpty = false := List.isEmpty_eq_false_iff.2 some
  refine .advancing (.bind inside ?_)
  rw [valued]
  exact .bind .pure (.expect closes .pure)

theorem ofSequence_eq_group (several : 2 ≤ conditions.length) :
    SupportsCondition.ofSequence conditions = .group conditions := by
  match conditions, several with
  | _ :: _ :: _, _ => rfl

end Parts

section Whole

theorem Enclosed.starts (written : Enclosed room tokens condition) :
    ∃ opening others, tokens = opening :: others ∧ opening.kind = .openParen := by
  cases written with
  | declaration opens _ _ _ _ _ => exact ⟨_, _, rfl, opens⟩
  | single opens _ _ => exact ⟨_, _, rfl, opens⟩
  | group opens _ _ _ => exact ⟨_, _, rfl, opens⟩

/-- The kinds of token that a condition starts with. -/
def startsCondition : Kind → Bool
  | .ident => true
  | .openParen => true
  | _ => false

theorem endsSupports_of_starts {terminator : Kind} (starts : startsCondition token.kind = true)
    (other : startsCondition terminator = false) : endsSupports terminator token = false := by
  have apart : token.kind ≠ terminator := by
    rintro rfl
    exact Bool.false_ne_true (other.symm.trans starts)
  unfold endsSupports Token.isStructural
  cases kind : token.kind <;> simp_all [startsCondition]

/-- A declaration that is all that stands in its parentheses. -/
theorem declaration_alone_reads (named : IsConditionName key) (follows : colon.kind = .colon)
    (written : Values room tokens values) (some : values ≠ [])
    (closes : closing.kind = .closeParen) :
    (supportsSequence room (supportsGroup room) closing.kind).Reads (key :: colon :: tokens)
      (closing :: rest) [.declaration key.literal values] := by
  have last : (supportsSequence room (supportsGroup room) closing.kind).Reads []
      (closing :: rest) [] :=
    .collect_nil (by simp [endsSupports])
  have going := endsSupports_of_starts (congrArg startsCondition named.is)
    (congrArg startsCondition closes)
  have read := Reads.collect_cons (supportsPart_advances closing.kind) going
    (supportsDeclaration_reads named follows written some closes) last
  rwa [List.append_nil] at read

mutual

/-- Conditions that are written right are read up to the token that ends them. -/
theorem Conditions.reads {room : Nat} {last : Token} {tokens : List Token}
    {conditions : List SupportsCondition} (written : Conditions room tokens conditions)
    (other : startsCondition last.kind = false) (rest : List Token) :
    (supportsSequence room (supportsGroup room) last.kind).Reads tokens (last :: rest)
      conditions := by
  have going {token : Token} (starts : startsCondition token.kind = true) :
      endsSupports last.kind token = false :=
    endsSupports_of_starts starts other
  match written with
  | .nil => exact .collect_nil (by simp [endsSupports])
  | .operator spells later =>
    have further := Conditions.reads later other rest
    have is := spells.elim kind_of_isWord kind_of_isWord
    exact .collect_cons (supportsPart_advances _) (going (congrArg startsCondition is))
      (operator_reads spells) further
  | @Conditions.call room _ _ _ _ _ _ _ named opens inside closes later =>
    have further := Conditions.reads later other rest
    have args (behind : List Token) : (arguments (room + 1)).Reads _ behind _ :=
      inside.reads.arguments closes
    have first (behind : List Token) := conditionCall_reads named opens (args behind)
    have read := Reads.collect_cons (supportsPart_advances last.kind)
      (going (congrArg startsCondition named.is)) (first _) further
    simp only [List.cons_append, List.append_assoc, List.nil_append] at read
    exact read
  | @Conditions.enclosed _ _ more _ _ first later =>
    have further := Conditions.reads later other rest
    have group := Enclosed.reads first (more ++ last :: rest)
    obtain ⟨opening, others, rfl, opens⟩ := first.starts
    exact .collect_cons (supportsPart_advances _) (going (congrArg startsCondition opens))
      (enclosed_reads opens group) further
  | @Conditions.negated _ _ _ more _ _ spells first later =>
    have further := Conditions.reads later other rest
    have group := Enclosed.reads first (more ++ last :: rest)
    obtain ⟨opening, others, rfl, opens⟩ := first.starts
    have is := kind_of_isWord spells
    exact .collect_cons (supportsPart_advances _) (going (congrArg startsCondition is))
      (negated_reads spells opens group) further

theorem Enclosed.reads {room : Nat} {tokens : List Token} {condition : SupportsCondition}
    (written : Enclosed room tokens condition) (rest : List Token) :
    (supportsGroup room).Reads tokens rest (some condition) := by
  match written with
  | .declaration opens named follows values valued closes =>
    exact supportsGroup_reads (declaration_alone_reads named follows values valued closes)
      (List.cons_ne_nil _ _) closes
  | .single opens inside closes =>
    have read := Conditions.reads inside (congrArg startsCondition closes) rest
    exact supportsGroup_reads read (List.cons_ne_nil _ _) closes
  | .group opens inside several closes =>
    have read := Conditions.reads inside (congrArg startsCondition closes) rest
    rw [← ofSequence_eq_group several]
    exact supportsGroup_reads read (List.length_pos_iff.1 (by omega)) closes

end

mutual

theorem Conditions.mono {room more : Nat} {tokens : List Token}
    {conditions : List SupportsCondition} (written : Conditions room tokens conditions)
    (within : room ≤ more) : Conditions more tokens conditions := by
  match written with
  | .nil => exact .nil
  | .operator spells later => exact .operator spells (Conditions.mono later within)
  | .call named opens inside closes later =>
    have further := Conditions.mono later within
    obtain ⟨less, rfl, fits⟩ := exists_less within
    exact .call named opens (inside.mono fits) closes further
  | .enclosed first later =>
    exact .enclosed (Enclosed.mono first within) (Conditions.mono later within)
  | .negated spells first later =>
    exact .negated spells (Enclosed.mono first within) (Conditions.mono later within)

theorem Enclosed.mono {room more : Nat} {tokens : List Token} {condition : SupportsCondition}
    (written : Enclosed room tokens condition) (within : room ≤ more) :
    Enclosed more tokens condition := by
  match written with
  | .declaration opens named follows values valued closes =>
    obtain ⟨less, rfl, fits⟩ := exists_less within
    exact .declaration opens named follows (values.mono fits) valued closes
  | .single opens inside closes =>
    obtain ⟨less, rfl, fits⟩ := exists_less within
    exact .single opens (Conditions.mono inside fits) closes
  | .group opens inside several closes =>
    obtain ⟨less, rfl, fits⟩ := exists_less within
    exact .group opens (Conditions.mono inside fits) several closes

end

theorem Conditions.append {room : Nat} {tokens rest : List Token}
    {conditions others : List SupportsCondition} (front : Conditions room tokens conditions)
    (back : Conditions room rest others) :
    Conditions room (tokens ++ rest) (conditions ++ others) := by
  match front with
  | .nil => exact back
  | .operator spells later => exact .operator spells (Conditions.append later back)
  | .call named opens inside closes later =>
    simpa using Conditions.call named opens inside closes (Conditions.append later back)
  | .enclosed first later =>
    simpa using Conditions.enclosed first (Conditions.append later back)
  | .negated spells first later =>
    simpa using Conditions.negated spells first (Conditions.append later back)

/-- Conditions in parentheses stand for what they are collected in. -/
theorem Enclosed.of_conditions (opens : opening.kind = .openParen)
    (inside : Conditions room inner conditions) (some : conditions ≠ [])
    (closes : closing.kind = .closeParen) :
    Enclosed (room + 1) (opening :: (inner ++ [closing])) (.ofSequence conditions) := by
  match conditions, some with
  | [_], _ => exact .single opens inside closes
  | _ :: _ :: _, _ => exact .group opens inside (by simp) closes

theorem Around.make_ne_nil {depth : Nat} {make : SupportsCondition → List SupportsCondition}
    (around : Around room depth front back make) (condition : SupportsCondition) :
    make condition ≠ [] := by
  induction around generalizing condition with
  | among => simp
  | negated => simp
  | nested _ _ _ _ outside _ => exact outside _

/-- A condition in parentheses is read in any place for one. -/
theorem Around.fill {depth : Nat} {make : SupportsCondition → List SupportsCondition}
    (around : Around room depth front back make) (inside : Enclosed depth tokens condition) :
    Conditions room (front ++ (tokens ++ back)) (make condition) := by
  induction around generalizing tokens condition with
  | among before after => exact before.append (.enclosed inside after)
  | negated before spells after =>
    simpa using before.append (.negated spells inside after)
  | nested _ opens around closes outer ih =>
    have filled := outer (.of_conditions opens (ih inside) (around.make_ne_nil _) closes)
    simpa using filled

/-- No tokens stand for two lists of conditions. -/
theorem Conditions.unique {depth : Nat} (first : Conditions room tokens conditions)
    (second : Conditions depth tokens others) : conditions = others := by
  let finish := Token.endOfInput .start
  let reading := supportsSequence (max room depth) (supportsGroup (max room depth)) finish.kind
  let parser : Parser := ⟨.standard, tokens ++ [finish], .start, []⟩
  have left : reading.Reads tokens [finish] conditions :=
    (first.mono (Nat.le_max_left room depth)).reads rfl []
  have right : reading.Reads tokens [finish] others :=
    (second.mono (Nat.le_max_right room depth)).reads rfl []
  exact congrArg Prod.fst ((left parser rfl).symm.trans (right parser rfl))

/-- With more parentheses around one of them, conditions stay what they are. -/
theorem Wraps.keeps {wrapped : List Token} (wraps : Wraps room tokens wrapped)
    (written : Conditions room tokens conditions) : Conditions room wrapped conditions := by
  cases wraps with
  | @intro depth _ _ _ _ _ condition make around opens inside closes =>
    have before := around.fill (inside.mono (Nat.le_succ depth))
    have pair : Enclosed (depth + 1) _ condition := .single opens (.enclosed inside .nil) closes
    have after := around.fill pair
    rw [List.append_nil] at after
    rw [written.unique before]
    exact after

theorem Conditions.keep {room : Nat} {wrapped : List Token}
    (written : Conditions room tokens conditions)
    (wraps : Relation.ReflTransGen (Wraps room) tokens wrapped) :
    Conditions room wrapped conditions := by
  induction wraps with
  | refl => exact written
  | tail _ step ih => exact step.keeps ih

end Whole

end CssSyntax.Written

namespace CssSyntax

open Grammar

/-- The grammar of support conditions is read to the last token. Conditions whose parentheses nest
no deeper than they may, with any number of parentheses more around those that have some, are
read as what they were written for: nothing wrong is found in them, and the parser stands at the
brace behind them. -/
theorem supportsCondition_of_written {room : Nat} {brace : Token}
    {tokens wrapped rest : List Token} {conditions : List SupportsCondition}
    (written : Written.Conditions room tokens conditions)
    (wraps : Relation.ReflTransGen (Written.Wraps room) tokens wrapped)
    (opens : brace.kind = .openBrace) (parser : Parser)
    (ahead : parser.ahead = wrapped ++ brace :: rest) :
    supportsCondition room .openBrace parser =
      (.group conditions, { parser with ahead := brace :: rest }) := by
  have other : Written.startsCondition brace.kind = false :=
    congrArg Written.startsCondition opens
  have read := (written.keep wraps).reads other rest
  rw [opens] at read
  exact Reading.Reads.map read parser ahead

/-- A negation with parentheses to spare, and a group of a call and a declaration. -/
theorem supportsCondition_of_written_wrapped :
    ∃ parser, parser = Parser.ofTokens .standard
        (tokenize (utf8 "not ((a: b)) and (f(c) or (d: 1px)) \x7b")) ∧
      supportsCondition nestingLimit .openBrace parser =
        (.group [.not (.declaration (utf8 "a") [.basic (utf8 "b")]), .operator (utf8 "and"),
          .group [.function (utf8 "f") [.basic (utf8 "c")], .operator (utf8 "or"),
            .declaration (utf8 "d") [.basic (utf8 "1px")]]],
          { parser with ahead := [⟨.openBrace, utf8 "\x7b", ⟨1, 37, 36⟩⟩] }) := by
  have is := Token.kind_inLine
  have named (text : String) (offset : Nat)
      (other : ∀ word ∈ [Word.andWord, Word.orWord, Word.notWord],
        Bytes.sameIgnoringCase (utf8 text) word = false) :
      Written.IsConditionName (.inLine .ident text offset) :=
    ⟨rfl, other _ (by simp), other _ (by simp), other _ (by simp)⟩
  have negation : (Token.inLine .ident "not" 0).isWord Word.notWord = true := by decide
  have conjunction : (Token.inLine .ident "and" 13).isWord Word.andWord = true := by decide
  have disjunction : (Token.inLine .ident "or" 23).isWord Word.orWord = true := by decide
  have word : Written.Values 125 [.inLine .ident "b" 9] _ := .name (is .ident "b" 9) nofun .nil
  have first : Written.Enclosed 126 _ _ :=
    .declaration (is .openParen "(" 5) (named "a" 6 (by decide)) (is .colon ":" 7) word
      (List.cons_ne_nil _ _) (is .closeParen ")" 10)
  have quantity : Written.Values 125 _ _ :=
    .quantity (is .number "1" 30) (.inr ⟨is .ident "px" 31, by decide⟩) rfl .nil
  have second : Written.Enclosed 127 _ _ :=
    .declaration (is .openParen "(" 26) (named "d" 27 (by decide)) (is .colon ":" 28)
      (quantity.mono (by decide)) (List.cons_ne_nil _ _) (is .closeParen ")" 33)
  have args : Written.Values 126 [.inLine .ident "c" 20] _ :=
    .name (is .ident "c" 20) nofun .nil
  have group : Written.Enclosed 128 _ _ :=
    .group (is .openParen "(" 17) (.call (named "f" 18 (by decide)) (is .openParen "(" 19) args
      (is .closeParen ")" 21) (.operator (.inr disjunction) (.enclosed second .nil)))
      (by decide) (is .closeParen ")" 34)
  have others := Written.Conditions.operator (.inl conjunction) (.enclosed group .nil)
  have written := Written.Conditions.negated negation (first.mono (by decide)) others
  have wraps := Written.Wraps.intro (.negated .nil negation others) (is .openParen "(" 4)
    (first.mono (by decide)) (is .closeParen ")" 11)
  refine ⟨_, rfl, ?_⟩
  exact supportsCondition_of_written written (.single wraps) (is .openBrace "\x7b" 36) _
    (by decide +kernel)

end CssSyntax

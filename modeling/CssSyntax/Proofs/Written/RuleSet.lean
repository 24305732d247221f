import CssSyntax.Proofs.Written.Selector
import CssSyntax.Proofs.Written.Value
import CssSyntax.Token.Stream

/-! Rule-sets as they are written, with the declarations and rule-sets in their blocks, and that
they are read as the tree that they were written for. -/

namespace CssSyntax.Written

open Grammar Reading

/-- `!` with its word, or nothing. -/
inductive Importance : List Token → Bool → Prop
  | absent : Importance [] false
  | present {mark word : Token} (is : mark.kind = .exclamation)
      (spells : word.isWord Word.importantWord = true) : Importance [mark, word] true

/-- Tokens and the declaration that they stand for, without the semicolon behind them. -/
inductive Declared (room : Nat) : List Token → Declaration → Prop
  | intro {key colon : Token} {tokens tail : List Token} {values : List Value} {important : Bool}
      (is : key.kind = .ident) (follows : colon.kind = .colon)
      (written : Values room tokens values)
      (some : values ≠ [] ∨ isCustomProperty key.literal = true)
      (flag : Importance tail important) :
      Declared room (key :: colon :: (tokens ++ tail)) ⟨key.literal, values, important⟩

/-- What stands in the block of a rule-set: declarations, each with its semicolon, and rule-sets.
Blocks and groups are at most `room` inside one another. -/
inductive Members : Nat → List Token → List Node → Prop
  | nil {room : Nat} : Members room [] []
  | declaration {room : Nat} {semicolon : Token} {tokens rest : List Token}
      {declaration : Declaration} {nodes : List Node} (written : Declared room tokens declaration)
      (ends : semicolon.kind = .semicolon) (later : Members room rest nodes) :
      Members room (tokens ++ semicolon :: rest) (.declaration declaration :: nodes)
  | ruleSet {room : Nat} {first opening closing : Token} {head body rest : List Token}
      {atoms : List SelectorAtom} {members nodes : List Node}
      (starts : startsRuleSet first.kind = true)
      (plain : ∀ token ∈ head, token.isStructural = false)
      (selector : Selector (first :: head) atoms) (opens : opening.kind = .openBrace)
      (inside : Members room body members) (closes : closing.kind = .closeBrace)
      (later : Members (room + 1) rest nodes) :
      Members (room + 1) (first :: head ++ opening :: (body ++ closing :: rest))
        (.ruleSet atoms members :: nodes)

/-- Tokens and the rule-set that they stand for. -/
inductive RuleSet : Nat → List Token → Node → Prop
  | intro {room : Nat} {opening closing : Token} {head body : List Token}
      {atoms : List SelectorAtom} {members : List Node} (selector : Selector head atoms)
      (opens : opening.kind = .openBrace) (inside : Members room body members)
      (closes : closing.kind = .closeBrace) :
      RuleSet (room + 1) (head ++ opening :: (body ++ [closing])) (.ruleSet atoms members)

variable {room : Nat} {token first opening closing semicolon : Token}
variable {tokens rest head body tail : List Token}

section Declarations

variable {values : List Value} {important : Bool}

theorem declaration_loop (room : Nat) :
    ValueLoop room endsDeclaration (declarationPart (value room)) .atom where
  advances := declarationPart_advances
  going token starts := by
    unfold endsDeclaration
    cases kind : token.kind <;> simp_all [startsValue]
  reads starts alone := unmarked_reads starts (.returning alone)

/-- What the mark of importance is read as. -/
def flags : Bool → List DeclarationPart
  | true => [.important]
  | false => []

theorem Importance.reads (flag : Importance tail important)
    (ends : semicolon.kind = .semicolon) :
    (collect endsDeclaration (declarationPart (value room))).Reads tail (semicolon :: rest)
      (flags important) := by
  have stopped : endsDeclaration semicolon = true := by simp [endsDeclaration, ends]
  cases flag with
  | absent => exact .collect_nil stopped
  | @present mark word is spells =>
    have read : (declarationPart (value room)).Reads [mark, word] (semicolon :: rest)
        [.important] := by
      refine .look_true (fun parser ahead => ?_) (.advancing (.advancing .pure))
      unfold Parser.currentIs Parser.current Parser.next Parser.nth
      rw [ahead]
      exact Bool.and_eq_true_iff.2 ⟨beq_iff_eq.2 is, spells⟩
    exact .collect_cons declarationPart_advances (by simp [endsDeclaration, is]) read
      (.collect_nil stopped)

theorem Importance.endsValues (flag : Importance tail important)
    (ends : semicolon.kind = .semicolon) : EndsValues (tail ++ semicolon :: rest) := by
  cases flag with
  | absent => exact endsValues_cons (by simp [ends]) rest
  | present is _ => exact endsValues_cons (by simp [is]) _

theorem Importance.plain (flag : Importance tail important) :
    ∀ token ∈ tail, token.isStructural = false := by
  cases flag with
  | absent => exact List.forall_mem_nil _
  | present is spells =>
    have word := kind_of_isWord spells
    simp only [List.forall_mem_cons]
    exact ⟨Token.isStructural_of_kind is, Token.isStructural_of_kind word, List.forall_mem_nil _⟩

theorem partValues_eq (values : List Value) (important : Bool) :
    (values.map DeclarationPart.atom ++ flags important).filterMap DeclarationPart.value? =
      values := by
  have flagged : (flags important).filterMap DeclarationPart.value? = [] := by
    cases important <;> rfl
  rw [List.filterMap_append, flagged, List.append_nil, List.filterMap_map]
  exact List.filterMap_some

theorem isImportant_eq (values : List Value) (important : Bool) :
    (values.map DeclarationPart.atom ++ flags important).any DeclarationPart.isImportant =
      important := by
  have none : (values.map DeclarationPart.atom).any DeclarationPart.isImportant = false := by
    simp [DeclarationPart.isImportant]
  rw [List.any_append, none]
  cases important <;> rfl

/-- A declaration that is written right is read up to its semicolon. -/
theorem Declared.reads {declaration : Declaration} (written : Declared room tokens declaration)
    (ends : semicolon.kind = .semicolon) :
    (Grammar.declaration room).Reads tokens (semicolon :: rest) (some declaration) := by
  cases written with
  | @intro key colon tokens tail values important is follows written some flag =>
    have parts : (collect endsDeclaration (declarationPart (value room))).Reads (tokens ++ tail)
        (semicolon :: rest) (values.map .atom ++ flags important) :=
      written.reads.further (declaration_loop room) (flag.endsValues ends) (flag.reads ends)
    have valued : ¬(values.isEmpty && !isCustomProperty key.literal) = true := by
      rcases some with some | custom
      · simp [some]
      · simp [custom]
    have body : (declarationBody room key.literal).Reads (tokens ++ tail) (semicolon :: rest)
        (Option.some ⟨key.literal, values, important⟩) := by
      refine .last parts ?_
      dsimp only
      rw [partValues_eq, isImportant_eq, if_neg valued]
      exact .pure
    refine .current rfl ?_
    rw [if_pos is]
    exact .advancing (.expect follows body)

theorem Declared.starts {declaration : Declaration} (written : Declared room tokens declaration) :
    ∃ key others, tokens = key :: others ∧ key.kind = .ident := by
  cases written with
  | intro is _ _ _ _ => exact ⟨_, _, rfl, is⟩

theorem Declared.plain {declaration : Declaration} (written : Declared room tokens declaration) :
    ∀ token ∈ tokens, token.isStructural = false := by
  cases written with
  | intro is follows written _ flag =>
    simp only [List.forall_mem_cons, List.forall_mem_append]
    exact ⟨Token.isStructural_of_kind is, Token.isStructural_of_kind follows, written.plain,
      flag.plain⟩

end Declarations

section Members

variable {atoms : List SelectorAtom} {members nodes : List Node} {node : Node}

theorem blockFollows_eq {parser : Parser} (plain : ∀ token ∈ tokens, token.isStructural = false)
    (stops : token.isStructural = true) (ahead : parser.ahead = tokens ++ token :: rest) :
    parser.blockFollows = (token.kind == .openBrace) := by
  have none : tokens.find? Token.isStructural = none := by
    simpa [List.find?_eq_none] using plain
  unfold Parser.blockFollows
  rw [ahead, List.find?_append, none, List.find?_cons_of_pos stops]
  rfl

/-- What a block of a rule-set is read as, one member at a time. -/
abbrev blockMember (room : Nat) : Reading (List Node) :=
  styleMember room (ruleSet room) (atRule room) "selector" brokenDeclaration

theorem blockMember_advances : Advances endsBlock (blockMember room) :=
  styleMember_advances fun _ going => brokenDeclaration_progresses going

theorem endsBlock_of_plain (plain : token.isStructural = false) : endsBlock token = false := by
  obtain ⟨_, notClosing, _, notEnd⟩ := Token.kind_ne_of_plain plain
  simp [endsBlock, notClosing, notEnd]

/-- A semicolon behind a declaration is dropped. -/
theorem semicolon_reads (is : semicolon.kind = .semicolon)
    (later : (collect endsBlock (blockMember room)).Reads tokens rest nodes) :
    (collect endsBlock (blockMember room)).Reads (semicolon :: tokens) rest nodes := by
  have dropped : (blockMember room).Reads [semicolon] (tokens ++ rest) [] := by
    refine .current rfl ?_
    simp only [is]
    exact .advancing .pure
  exact .collect_cons blockMember_advances (by simp [endsBlock, is]) dropped later

/-- No block comes before the semicolon of a declaration, so it is not taken for a rule-set. -/
theorem Declared.member {content : Declaration} (written : Declared room tokens content)
    (ends : semicolon.kind = .semicolon) :
    (blockMember room).Reads tokens (semicolon :: rest) [.declaration content] := by
  have plain := written.plain
  have read : (declaration room).Reads tokens (semicolon :: rest) (some _) := written.reads ends
  cases written with
  | intro is _ _ _ _ =>
    refine .current rfl ?_
    simp only [is]
    refine .look_false (fun parser ahead => ?_) (.returning read)
    have stops : semicolon.isStructural = true := by simp [Token.isStructural, ends]
    rw [blockFollows_eq plain stops ahead, ends]
    exact Bool.false_ne_true

/-- A rule-set is not taken for a declaration: a block comes before the next semicolon. -/
theorem member_of_ruleSet (starts : startsRuleSet first.kind = true)
    (plain : ∀ token ∈ head, token.isStructural = false) (opens : opening.kind = .openBrace)
    (read : (Grammar.ruleSet room).Reads (first :: head ++ opening :: tokens) rest (some node)) :
    (blockMember room).Reads (first :: head ++ opening :: tokens) rest [node] := by
  refine .current rfl ?_
  split
  next is => simp [is, startsRuleSet] at starts
  next is => simp [is, startsRuleSet] at starts
  next is =>
    refine .look_true (fun parser ahead => ?_) (.map read)
    have all : ∀ token ∈ first :: head, token.isStructural = false :=
      List.forall_mem_cons.2 ⟨isStructural_of_startsRuleSet starts, plain⟩
    have stops : opening.isStructural = true := by simp [Token.isStructural, opens]
    rw [List.append_assoc] at ahead
    rw [blockFollows_eq all stops ahead, opens]
    rfl
  next is => simp [is, startsRuleSet] at starts
  next =>
    rw [if_pos starts]
    exact .map read

theorem ruleSet_reads (selector : Selector head atoms) (opens : opening.kind = .openBrace)
    (inside : (collect endsBlock (blockMember room)).Reads body (closing :: rest) members)
    (closes : closing.kind = .closeBrace) :
    (Grammar.ruleSet (room + 1)).Reads (head ++ opening :: (body ++ [closing])) rest
      (some (.ruleSet atoms members)) := by
  have close : (closeBlock "selector block").Reads [closing] rest () :=
    .currentIs rfl closes .advance
  have block : (ruleSetBlock room (Grammar.ruleSet room) (Grammar.atRule room)).Reads
      (opening :: (body ++ [closing])) rest (some members) :=
    .advancing (.returning (.bind inside (.returning close)))
  exact .bind (selector.reads opens) (.currentIs rfl opens (.returning block))

/-- What is written right in a block is read up to the end of the block. -/
theorem Members.reads (written : Members room tokens nodes) (closes : closing.kind = .closeBrace)
    (rest : List Token) :
    (collect endsBlock (blockMember room)).Reads tokens (closing :: rest) nodes := by
  induction written generalizing closing rest with
  | nil => exact .collect_nil (by simp [endsBlock, closes])
  | declaration written ends _ ih =>
    have further := semicolon_reads ends (ih closes rest)
    have plain := written.plain
    obtain ⟨key, others, rfl, _⟩ := written.starts
    have going := endsBlock_of_plain (plain key List.mem_cons_self)
    exact .collect_cons blockMember_advances going (written.member ends) further
  | ruleSet starts plain selector opens _ closed _ inside ih =>
    have read (behind : List Token) := ruleSet_reads selector opens (inside closed behind) closed
    have member := fun behind => member_of_ruleSet starts plain opens (read behind)
    have going := endsBlock_of_plain (isStructural_of_startsRuleSet starts)
    simpa using Reads.collect_cons blockMember_advances going (member _) (ih closes rest)

/-- A rule-set that is written right is read as the tree that it stands for. -/
theorem RuleSet.reads (written : RuleSet room tokens node) :
    (Grammar.ruleSet room).Reads tokens rest (some node) := by
  cases written with
  | intro selector opens inside closes =>
    exact ruleSet_reads selector opens (inside.reads closes rest) closes

end Members

section Room

variable {more : Nat}

theorem Declared.mono {declaration : Declaration} (written : Declared room tokens declaration)
    (within : room ≤ more) : Declared more tokens declaration := by
  cases written with
  | intro is follows written some flag =>
    exact .intro is follows (written.mono within) some flag

theorem Members.mono {nodes : List Node} (written : Members room tokens nodes)
    (within : room ≤ more) : Members more tokens nodes := by
  induction written generalizing more with
  | nil => exact .nil
  | declaration written ends _ ih => exact .declaration (written.mono within) ends (ih within)
  | ruleSet starts plain selector opens _ closes _ inside ih =>
    obtain ⟨less, rfl, fits⟩ := exists_less within
    exact .ruleSet starts plain selector opens (inside fits) closes (ih within)

theorem RuleSet.mono {node : Node} (written : RuleSet room tokens node)
    (within : room ≤ more) : RuleSet more tokens node := by
  cases written with
  | intro selector opens inside closes =>
    obtain ⟨less, rfl, fits⟩ := exists_less within
    exact .intro selector opens (inside.mono fits) closes

/-- No tokens stand for two rule-sets. -/
theorem RuleSet.unique {depth : Nat} {node other : Node} (first : RuleSet room tokens node)
    (second : RuleSet depth tokens other) : node = other := by
  let parser : Parser := ⟨.standard, tokens, .start, []⟩
  have ahead : parser.ahead = tokens ++ [] := (List.append_nil tokens).symm
  have left := (first.mono (Nat.le_max_left room depth)).reads parser ahead
  have right := (second.mono (Nat.le_max_right room depth)).reads parser ahead
  exact Option.some.inj (congrArg Prod.fst (left.symm.trans right))

end Room

end CssSyntax.Written

namespace CssSyntax

open Grammar

/-- The grammar of rule-sets is read to the last token. A rule-set whose blocks and groups nest no
deeper than they may is read as the tree it was written for: nothing wrong is found in it, and
the parser stands right behind its last brace. -/
theorem ruleSet_of_written {depth : Nat} {tokens rest : List Token} {node : Node}
    (written : Written.RuleSet depth tokens node) (within : depth ≤ nestingLimit)
    (parser : Parser) (ahead : parser.ahead = tokens ++ rest) :
    ruleSet nestingLimit parser = (some node, { parser with ahead := rest }) :=
  (written.mono within).reads parser ahead

/-- A token of a source in one line. -/
def Token.inLine (kind : Kind) (text : String) (offset : Nat) : Token :=
  ⟨kind, utf8 text, ⟨1, offset + 1, offset⟩⟩

theorem Token.kind_inLine (kind : Kind) (text : String) (offset : Nat) :
    (Token.inLine kind text offset).kind = kind := rfl

/-- A quantity, a call, importance, and inside another rule-set an empty custom property. -/
theorem ruleSet_of_written_nested :
    ∃ parser, parser = Parser.ofTokens .standard
        (tokenize (utf8 "a \x7b m:1px f(2)!important; .b \x7b --c:; \x7d \x7d d")) ∧
      ruleSet nestingLimit parser =
        (some (.ruleSet [⟨.element, utf8 "a"⟩]
          [.declaration ⟨utf8 "m", [.basic (utf8 "1px"), .function (utf8 "f") [.basic (utf8 "2")]],
            true⟩, .ruleSet [⟨.className, utf8 ".b"⟩] [.declaration ⟨utf8 "--c", [], false⟩]]),
          { parser with ahead := [⟨.ident, utf8 "d", ⟨1, 42, 41⟩⟩] }) := by
  have is := Token.kind_inLine
  have args : Written.Values 0 [.inLine .number "2" 12] _ := .number (is ..) nofun .nil
  have values : Written.Values 1 _ _ :=
    .quantity (is .number "1" 6) (.inr ⟨is .ident "px" 7, by decide⟩) rfl
      (.call (is .ident "f" 10) (is .openParen "(" 11) args (is .closeParen ")" 13) .nil)
  have important : (Token.inLine .ident "important" 15).isWord Word.importantWord = true := by
    decide
  have declared := Written.Declared.intro (is .ident "m" 4) (is .colon ":" 5) values
    (.inl (List.cons_ne_nil _ _)) (.present (is .exclamation "!" 14) important)
  have none : Written.Values 0 [] [] := .nil
  have custom := Written.Declared.intro (is .ident "--c" 31) (is .colon ":" 34) none
    (.inr (by decide)) .absent
  have selector := Written.Selector.cons
    (Written.Atom.className (is .dot "." 26) (is .ident "b" 27)) .nil
  have inner := Written.Members.declaration custom (is .semicolon ";" 35) .nil
  have block := Written.Members.declaration declared (is .semicolon ";" 24)
    (.ruleSet rfl (List.forall_mem_singleton.2 rfl) selector (is .openBrace "\x7b" 29) inner
      (is .closeBrace "\x7d" 37) .nil)
  have whole := Written.RuleSet.intro (.cons (.element (.inl (is .ident "a" 0))) .nil)
    (is .openBrace "\x7b" 2) block (is .closeBrace "\x7d" 39)
  refine ⟨_, rfl, ?_⟩
  exact ruleSet_of_written whole (by decide) _ (by decide +kernel)

end CssSyntax

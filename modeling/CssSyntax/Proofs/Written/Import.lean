import CssSyntax.Proofs.Written.MediaQuery
import CssSyntax.Proofs.Written.Supports

/-! Imports as they are written, and that their clauses are told apart in whatever order they
stand. -/

namespace CssSyntax.Written

open Grammar Reading

/-- A string, an unquoted url, or a url with a string in its parentheses. -/
inductive Url : Nat → List Token → Value → Prop
  | string {room : Nat} {token : Token} (is : token.kind = .string) :
      Url room [token] (.string (.ofLiteral token.literal))
  | unquoted {room : Nat} {token : Token} (is : token.kind = .uri) :
      Url room [token] (.ofUri token.literal)
  | quoted {room : Nat} {name opening string closing : Token}
      (spells : name.isWord Word.urlWord = true) (opens : opening.kind = .openParen)
      (is : string.kind = .string) (closes : closing.kind = .closeParen) :
      Url (room + 1) [name, opening, string, closing]
        (.function name.literal [.string (.ofLiteral string.literal)])

/-- What stands in the parentheses of a layer: values, and points before names, as the name of a
layer inside another has them. -/
inductive LayerArgs : Nat → List Token → List Value → Prop
  | last {room : Nat} {tokens : List Token} {values : List Value}
      (written : Values room tokens values) : LayerArgs room tokens values
  | point {room : Nat} {dot name : Token} {front rest : List Token} {values others : List Value}
      (written : Values room front values) (mark : dot.kind = .dot) (is : name.kind = .ident)
      (later : LayerArgs room (name :: rest) others) :
      LayerArgs room (front ++ dot :: name :: rest) (values ++ .basic dot.literal :: others)

/-- What stands in the parentheses after `supports`: one declaration, or any conditions. -/
inductive Supported : Nat → List Token → List SupportsCondition → Prop
  | declaration {room : Nat} {key colon : Token} {tokens : List Token} {values : List Value}
      (named : IsConditionName key) (follows : colon.kind = .colon)
      (written : Values room tokens values) (some : values ≠ []) :
      Supported room (key :: colon :: tokens) [.declaration key.literal values]
  | conditions {room : Nat} {tokens : List Token} {conditions : List SupportsCondition}
      (written : Conditions room tokens conditions) : Supported room tokens conditions

/-- The layer and the condition in either order, each at most once, and after them a media query.
The query does not start like another clause, and the word `layer` has no parenthesis behind it
unless that is its own. -/
inductive Clauses : Nat → List Token → ImportClauses → Prop
  | nil {room : Nat} : Clauses room [] ⟨none, none, none⟩
  | media {room : Nat} {first : Token} {others : List Token} {expressions : List MediaExpression}
      (written : Query (first :: others) expressions)
      (notLayer : first.isWord Word.layerWord = false)
      (notSupports : ∀ next ∈ others.head?, next.kind = .openParen →
        first.isWord Word.supportsWord = false) :
      Clauses room (first :: others) ⟨none, none, some ⟨expressions⟩⟩
  | layerWord {room : Nat} {word : Token} {rest : List Token}
      {supports : Option SupportsCondition} {media : Option MediaQuery}
      (spells : word.isWord Word.layerWord = true)
      (alone : ∀ next ∈ rest.head?, next.kind ≠ .openParen)
      (later : Clauses room rest ⟨none, supports, media⟩) :
      Clauses room (word :: rest) ⟨some (.basic word.literal), supports, media⟩
  | layerCall {room : Nat} {word opening closing : Token} {inner rest : List Token}
      {args : List Value} {supports : Option SupportsCondition} {media : Option MediaQuery}
      (spells : word.isWord Word.layerWord = true) (opens : opening.kind = .openParen)
      (adjacent : word.stop = opening.start.offset) (inside : LayerArgs room inner args)
      (closes : closing.kind = .closeParen)
      (later : Clauses (room + 1) rest ⟨none, supports, media⟩) :
      Clauses (room + 1) (word :: opening :: (inner ++ [closing]) ++ rest)
        ⟨some (.function word.literal args), supports, media⟩
  | supports {room : Nat} {word opening closing : Token} {inner rest : List Token}
      {conditions : List SupportsCondition} {layer : Option Value} {media : Option MediaQuery}
      (spells : word.isWord Word.supportsWord = true) (opens : opening.kind = .openParen)
      (inside : Supported room inner conditions) (closes : closing.kind = .closeParen)
      (later : Clauses room rest ⟨layer, none, media⟩) :
      Clauses room (word :: opening :: (inner ++ [closing]) ++ rest)
        ⟨layer, some (.group conditions), media⟩

/-- An import from its url to its semicolon. -/
inductive Import : Nat → List Token → Node → Prop
  | intro {room : Nat} {semicolon : Token} {front back : List Token} {address : Value}
      {clauses : ImportClauses} (url : Url room front address)
      (written : Clauses room back clauses) (ends : semicolon.kind = .semicolon) :
      Import room (front ++ (back ++ [semicolon]))
        (.importRule address clauses.layer clauses.supports clauses.media)

variable {room : Nat} {token first word dot name opening closing semicolon : Token}
variable {tokens rest inner front others : List Token} {args : List Value} {address : Value}
variable {layer : Option Value} {supports : Option SupportsCondition} {media : Option MediaQuery}
variable {conditions : List SupportsCondition} {clauses : ImportClauses}

section Parts

theorem uri_reads (is : token.kind = .uri) :
    (value room).Reads [token] rest (some (.ofUri token.literal)) := by
  refine .current rfl ?_
  simp only [is]
  exact .map tokenValue_reads

theorem url_reads {found : Option Value}
    (starts : first.isQuotedOrUri = true ∨
      first.isWord Word.urlWord = true ∧ ∃ next ∈ (tokens ++ rest).head?, next.kind = .openParen)
    (read : (value room).Reads (first :: tokens) rest found) :
    (url room).Reads (first :: tokens) rest found := by
  have bare : first.kind ≠ .comment := by
    intro is
    simp [Token.isQuotedOrUri, Token.isWord, is] at starts
  refine .noComments rfl bare (.look_true (fun parser ahead => ?_) read)
  have here : parser.current = first := current_of_head (ahead ▸ rfl)
  have follows : parser.nextIs .openParen = true ↔
      ∃ next ∈ (tokens ++ rest).head?, next.kind = .openParen := by
    have other : Kind.openParen ≠ .eof := by decide
    rw [nextIs_iff, next_kind_iff other, ahead]
    rfl
  unfold startsUrl
  rw [here, Bool.or_eq_true_iff, Bool.and_eq_true_iff, follows]
  exact starts

theorem Url.reads (written : Url room tokens address) :
    (url room).Reads tokens rest (some address) := by
  cases written with
  | string is => exact url_reads (.inl (by simp [Token.isQuotedOrUri, is])) (string_reads is)
  | unquoted is => exact url_reads (.inl (by simp [Token.isQuotedOrUri, is])) (uri_reads is)
  | @quoted room _ _ _ _ spells opens is closes =>
    have argument : Values room [_] _ := .string is .nil
    exact url_reads (.inr ⟨spells, _, rfl, opens⟩)
      (call_reads (kind_of_isWord spells) opens (argument.reads.arguments closes))

/-- A point before a name is a value of its own. -/
theorem point_reads (mark : dot.kind = .dot) (is : name.kind = .ident) :
    (value room).Reads [dot] (name :: rest) (some (.basic dot.literal)) := by
  refine .current rfl ?_
  simp only [mark]
  refine .map (.look_false (fun parser ahead => ?_) tokenValue_reads)
  unfold Parser.startsNumeric Parser.isAdjacent Parser.current Parser.nth
  rw [ahead]
  simp [Parser.isSign, mark, is]

theorem LayerArgs.reads (written : LayerArgs room inner args)
    (closes : closing.kind = .closeParen) :
    (collect endsArguments (separatedValue (value room))).Reads inner (closing :: rest) args := by
  have loop := ReadInLoops.arguments_loop room
  induction written with
  | last written =>
    have ends : EndsValues (closing :: rest) := endsValues_cons (by simp [closes]) rest
    have read := written.reads.whole loop ends (by simp [endsArguments, closes])
    rwa [List.map_id] at read
  | point written mark is later ih =>
    have point := Reads.collect_cons separatedValue_advances (by simp [endsArguments, mark])
      (separated_reads (by simp [mark]) (point_reads mark is)) ih
    have read := written.reads.further loop (endsValues_cons (by simp [mark]) _) point
    rwa [List.map_id] at read

theorem Supported.reads (written : Supported room inner conditions)
    (closes : closing.kind = .closeParen) :
    (supportsSequence room (supportsGroup room) .closeParen).Reads inner (closing :: rest)
      conditions := by
  rw [← closes]
  cases written with
  | declaration named follows written some =>
    exact declaration_alone_reads named follows written some closes
  | conditions written => exact written.reads (congrArg startsCondition closes) rest

end Parts

section Whole

theorem Clauses.starts (written : Clauses room tokens clauses)
    (ends : semicolon.kind = .semicolon) :
    ∃ next, (tokens ++ semicolon :: rest).head? = some next ∧ next.kind ≠ .comment := by
  have named {word : Token} {spelled : Bytes} (spells : word.isWord spelled = true) :
      word.kind ≠ .comment := by
    simp [kind_of_isWord spells]
  cases written with
  | nil => exact ⟨semicolon, rfl, by simp [ends]⟩
  | media written _ _ =>
    refine ⟨_, rfl, ?_⟩
    rcases written.starts with word | opens
    · simp [word]
    · simp [opens]
  | layerWord spells _ _ => exact ⟨_, rfl, named spells⟩
  | layerCall spells _ _ _ _ _ => exact ⟨_, rfl, named spells⟩
  | supports spells _ _ _ _ => exact ⟨_, rfl, named spells⟩

theorem layerWord_reads (spells : word.isWord Word.layerWord = true)
    (alone : ∀ next ∈ rest.head?, next.kind ≠ .openParen) :
    (importClause room ⟨none, supports, media⟩).Reads [word] rest
      ⟨some (.basic word.literal), supports, media⟩ := by
  have read : (layerClause room).Reads [word] rest (.basic word.literal) :=
    .nextIsOther alone nofun tokenValue_reads
  refine .current rfl ?_
  rw [if_pos spells]
  exact .last read (.last .pure .pure)

theorem layerCall_reads (spells : word.isWord Word.layerWord = true)
    (opens : opening.kind = .openParen) (inside : LayerArgs room inner args)
    (closes : closing.kind = .closeParen) :
    (importClause (room + 1) ⟨none, supports, media⟩).Reads
      (word :: opening :: (inner ++ [closing])) rest
      ⟨some (.function word.literal args), supports, media⟩ := by
  have read : (arguments (room + 1)).Reads (inner ++ [closing]) rest args :=
    arguments_reads closes (inside.reads closes)
  have call : (call (room + 1)).Reads (word :: opening :: (inner ++ [closing])) rest
      (.function word.literal args) :=
    .current rfl (.advancing (.advancing (.returning read)))
  have read : (layerClause (room + 1)).Reads (word :: opening :: (inner ++ [closing])) rest
      (.function word.literal args) :=
    .nextIs rfl opens nofun call
  refine .current rfl ?_
  rw [if_pos spells]
  exact .last read (.last .pure .pure)

theorem supports_reads (spells : word.isWord Word.supportsWord = true)
    (opens : opening.kind = .openParen) (inside : Supported room inner conditions)
    (closes : closing.kind = .closeParen) :
    (importClause room ⟨layer, none, media⟩).Reads (word :: opening :: (inner ++ [closing])) rest
      ⟨layer, some (.group conditions), media⟩ := by
  have read : (supportsClause room).Reads (word :: opening :: (inner ++ [closing])) rest
      (.group conditions) :=
    .advancing (.advancing (.bind (.map (inside.reads closes)) (.expect closes .pure)))
  have notLayer : word.isWord Word.layerWord = false := Token.isWord_other spells (by decide)
  refine .current rfl ?_
  rw [notLayer, spells]
  exact .nextIs rfl opens nofun (.last read (.last .pure .pure))

theorem media_reads {expressions : List MediaExpression}
    (written : Query (first :: others) expressions)
    (notLayer : first.isWord Word.layerWord = false)
    (notSupports : ∀ next ∈ others.head?, next.kind = .openParen →
      first.isWord Word.supportsWord = false)
    (ends : semicolon.kind = .semicolon) :
    (importClause room ⟨layer, supports, none⟩).Reads (first :: others) (semicolon :: rest)
      ⟨layer, supports, some ⟨expressions⟩⟩ := by
  have read : mediaQuery.Reads (first :: others) (semicolon :: rest) ⟨expressions⟩ :=
    written.reads (by simp [Token.isStructural, ends])
  have starts : (first.kind == .ident || first.kind == .openParen) = true := by
    simpa using written.starts
  have apart : ∀ next ∈ (others ++ semicolon :: rest).head?, next.kind = .openParen →
      first.isWord Word.supportsWord = false := by
    refine head_append notSupports fun next head is => ?_
    obtain rfl := Option.some.inj head
    simp [ends] at is
  obtain ⟨next, behind, follows⟩ :
      ∃ next behind, others ++ semicolon :: rest = next :: behind :=
    List.exists_cons_of_ne_nil (by simp)
  have second : (first :: others ++ semicolon :: rest).tail.head? = some next :=
    congrArg List.head? follows
  refine .current rfl ?_
  rw [notLayer, starts]
  by_cases opens : next.kind = .openParen
  · rw [apart next second opens]
    exact .nextIs second opens nofun (.returning read)
  · refine .nextIsOther (fun other head => ?_) nofun ?_
    · rw [second] at head
      exact Option.some.inj head ▸ opens
    · rw [Bool.and_false]
      exact .returning read

/-- A clause in front of clauses that are read. -/
theorem clause_first {before found whole : ImportClauses} (plain : first.isStructural = false)
    (read : (importClause room before).Reads (first :: front) (tokens ++ semicolon :: rest) found)
    (written : Clauses room tokens clauses) (ends : semicolon.kind = .semicolon)
    (later : (iterate Token.isStructural (separatedClause room) found).Reads tokens
      (semicolon :: rest) whole) :
    (iterate Token.isStructural (separatedClause room) before).Reads (first :: front ++ tokens)
      (semicolon :: rest) whole := by
  obtain ⟨next, head, bare⟩ := written.starts ends
  have separated : (separatedClause room before).Reads (first :: front)
      (tokens ++ semicolon :: rest) found :=
    .last read (.noComments head bare .pure)
  exact .iterate_cons separatedClause_advances plain separated later

/-- Clauses that are written right are read beside those that were read before them, unless both
have one of a sort. -/
theorem Clauses.reads (written : Clauses room tokens clauses)
    (freeLayer : layer = none ∨ clauses.layer = none)
    (freeSupports : supports = none ∨ clauses.supports = none)
    (ends : semicolon.kind = .semicolon) :
    (iterate Token.isStructural (separatedClause room) ⟨layer, supports, none⟩).Reads tokens
      (semicolon :: rest)
      ⟨layer.or clauses.layer, supports.or clauses.supports, clauses.media⟩ := by
  have stopped : semicolon.isStructural = true := by simp [Token.isStructural, ends]
  have plain {word : Token} {spelled : Bytes} (spells : word.isWord spelled = true) :
      word.isStructural = false :=
    Token.isStructural_of_kind (kind_of_isWord spells)
  induction written generalizing layer supports with
  | nil =>
    rw [Option.or_none, Option.or_none]
    exact .iterate_nil stopped
  | @media room first others expressions written notLayer notSupports =>
    have starts : first.isStructural = false :=
      written.starts.elim Token.isStructural_of_kind Token.isStructural_of_kind
    have read : (importClause room ⟨layer, supports, none⟩).Reads (first :: others)
        (semicolon :: rest) ⟨layer, supports, some ⟨expressions⟩⟩ :=
      media_reads written notLayer notSupports ends
    have none : Clauses room [] _ := .nil
    have whole := clause_first starts read none ends (.iterate_nil stopped)
    rw [List.append_nil] at whole
    rw [Option.or_none, Option.or_none]
    exact whole
  | layerWord spells alone later ih =>
    obtain rfl := freeLayer.resolve_right (Option.some_ne_none _)
    refine clause_first (plain spells) (layerWord_reads spells (head_append alone ?_)) later ends
      (ih (.inr rfl) freeSupports)
    exact fun next head => Option.some.inj head ▸ by simp [ends]
  | layerCall spells opens _ inside closes later ih =>
    obtain rfl := freeLayer.resolve_right (Option.some_ne_none _)
    exact clause_first (plain spells) (layerCall_reads spells opens inside closes) later ends
      (ih (.inr rfl) freeSupports)
  | supports spells opens inside closes later ih =>
    obtain rfl := freeSupports.resolve_right (Option.some_ne_none _)
    exact clause_first (plain spells) (supports_reads spells opens inside closes) later ends
      (ih freeLayer (.inr rfl))

/-- An import that is written right is read with the clauses that are written, and no others. -/
theorem Import.reads {node : Node} (written : Import room tokens node) :
    (importRule room).Reads tokens rest (some node) := by
  cases written with
  | @intro semicolon _ back _ clauses url written ends =>
    have read : (iterate Token.isStructural (separatedClause room) ⟨none, none, none⟩).Reads back
        (semicolon :: rest) clauses :=
      written.reads (.inl rfl) (.inl rfl) ends
    obtain ⟨next, head, bare⟩ := written.starts ends
    refine .bind url.reads (.noComments ?_ bare (.bind read (.expect ends .pure)))
    rw [List.append_assoc]
    exact head

end Whole

end CssSyntax.Written

namespace CssSyntax

open Grammar

/-- The clauses of an import are told apart in any order. Whatever url, layer, condition and media
query are written, and whichever of the two clauses before the query comes first, the import has
just these: nothing wrong is found in it, and the parser stands right behind its semicolon. The
word `layer` alone before a parenthesis is no such clause, it would be read as a call. -/
theorem importRule_of_written {room : Nat} {tokens rest : List Token} {node : Node}
    (written : Written.Import room tokens node) (parser : Parser)
    (ahead : parser.ahead = tokens ++ rest) :
    importRule room parser = (some node, { parser with ahead := rest }) :=
  written.reads parser ahead

/-- The condition first, then a layer inside another, then two expressions. -/
theorem importRule_of_written_mixed :
    ∃ parser, parser = Parser.ofTokens .standard
        (tokenize (utf8 "url(\"a\") supports(not (b: c)) layer(d.e) f, (g); h")) ∧
      importRule nestingLimit parser =
        (some (.importRule (.function (utf8 "url") [.string (.ofLiteral (utf8 "\"a\""))])
          (some (.function (utf8 "layer")
            [.basic (utf8 "d"), .basic (utf8 "."), .basic (utf8 "e")]))
          (some (.group [.not (.declaration (utf8 "b") [.basic (utf8 "c")])]))
          (some ⟨[⟨false, false, some (utf8 "f"), []⟩,
            ⟨false, false, none, [⟨utf8 "g", none⟩]⟩]⟩)),
          { parser with ahead := [⟨.ident, utf8 "h", ⟨1, 50, 49⟩⟩] }) := by
  have is := Token.kind_inLine
  have address : (Token.inLine .ident "url" 0).isWord Word.urlWord = true := by decide
  have url : Written.Url 128 _ _ :=
    .quoted address (is .openParen "(" 3) (is .string "\"a\"" 4) (is .closeParen ")" 7)
  have feature : Written.MediaFeature _ ⟨utf8 "g", none⟩ :=
    .named (is .openParen "(" 44) (is .ident "g" 45) (is .closeParen ")" 46)
  have type : Written.MediaType [.inLine .ident "f" 41] _ :=
    .present (is .ident "f" 41) (by decide) (by decide) (by decide)
  have first := Written.Expression.intro .absent type (.joined .nil) (.inl nofun)
  have second := Written.Expression.intro .absent .absent (.direct feature .nil)
    (.inr (List.cons_ne_nil _ _))
  have media := Written.Query.intro first (.cons (is .comma "," 42) second .nil)
  have last : Written.Clauses 128 _ _ := .media media (by decide) (by decide)
  have inner : Written.Values 127 [.inLine .ident "e" 38] _ := .name (is ..) nofun .nil
  have outer : Written.Values 127 [.inLine .ident "d" 36] _ := .name (is ..) nofun .nil
  have args := Written.LayerArgs.point outer (is .dot "." 37) (is .ident "e" 38) (.last inner)
  have spells : (Token.inLine .ident "layer" 30).isWord Word.layerWord = true := by decide
  have layer := Written.Clauses.layerCall spells (is .openParen "(" 35) rfl args
    (is .closeParen ")" 39) last
  have value : Written.Values 127 [.inLine .ident "c" 26] _ := .name (is ..) nofun .nil
  have named : Written.IsConditionName (.inLine .ident "b" 23) := ⟨rfl, rfl, rfl, rfl⟩
  have declared : Written.Enclosed 128 _ _ :=
    .declaration (is .openParen "(" 22) named (is .colon ":" 24) value (List.cons_ne_nil _ _)
      (is .closeParen ")" 27)
  have negates : (Token.inLine .ident "not" 18).isWord Word.notWord = true := by decide
  have supports : (Token.inLine .ident "supports" 9).isWord Word.supportsWord = true := by decide
  have clauses := Written.Clauses.supports supports (is .openParen "(" 17)
    (.conditions (.negated negates declared .nil)) (is .closeParen ")" 28) layer
  refine ⟨_, rfl, ?_⟩
  exact importRule_of_written (.intro url clauses (is .semicolon ";" 47)) _ (by decide +kernel)

/-- A space before the parenthesis makes no difference: the word `layer` alone takes the feature
behind it for its arguments. -/
theorem layerWord_takes_feature :
    ¬∀ {room : Nat} {word semicolon : Token} {front back : List Token} {address : Value}
        {expressions : List MediaExpression} (rest : List Token) (parser : Parser),
      Written.Url room front address → word.isWord Word.layerWord = true →
        Written.Query back expressions →
          (∀ next ∈ back.head?, word.stop ≠ next.start.offset ∧
            next.isWord Word.layerWord = false ∧ next.isWord Word.supportsWord = false) →
            semicolon.kind = .semicolon →
              parser.ahead = front ++ word :: (back ++ semicolon :: rest) →
                importRule room parser =
                  (some (.importRule address (some (.basic word.literal)) none
                    (some ⟨expressions⟩)), { parser with ahead := rest }) := by
  intro always
  let parser := Parser.ofTokens .standard (tokenize (utf8 "\"a\" layer (min-width: 1px);"))
  have is := Token.kind_inLine
  have url : Written.Url nestingLimit _ _ := .string (is .string "\"a\"" 0)
  have spells : (Token.inLine .ident "layer" 4).isWord Word.layerWord = true := by decide
  have value : Written.Segment [.inLine .number "1" 22, .inLine .ident "px" 23] := by
    refine ⟨List.cons_ne_nil _ _, ?_, by decide, by decide⟩
    exact .token rfl nofun nofun (.token rfl nofun nofun .nil)
  have feature : Written.MediaFeature _ ⟨utf8 "min-width", some (utf8 "1px")⟩ :=
    .valued (is .openParen "(" 10) (is .ident "min-width" 11) (is .colon ":" 20) value
      (is .closeParen ")" 25)
  have expression := Written.Expression.intro .absent .absent (.direct feature .nil)
    (.inr (List.cons_ne_nil _ _))
  have found := always [] parser url spells (.intro expression .nil)
    (by decide) (is .semicolon ";" 26) (by decide +kernel)
  have media : (importRule nestingLimit parser).1.map (fun node => match node with
      | .importRule _ _ _ media => media
      | _ => none) = some none := by
    decide +kernel
  rw [found] at media
  exact absurd media (by simp)

end CssSyntax

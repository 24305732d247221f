import CssSyntax.Proofs.Comments.Bare
import CssSyntax.Proofs.Written.RuleSet

/-! Media queries as they are written, and that they are read expression by expression. -/

namespace CssSyntax.Written

open Grammar Reading

/-- The tokens of a feature value: at least one, with a counterpart to each parenthesis, and
neither a comment nor a structural token among them. That each has some text holds of the tokens of
every source. -/
structure Segment (tokens : List Token) : Prop where
  some : tokens ≠ []
  balanced : Argument tokens
  bare : ∀ token ∈ tokens, token.kind ≠ .comment
  spelled : ∀ token ∈ tokens, token.literal ≠ []

/-- A feature in its parentheses: a name alone, a name and a colon before a value, or a name right
before a value that does not start with a colon. -/
inductive MediaFeature : List Token → Feature → Prop
  | named {opening name closing : Token} (opens : opening.kind = .openParen)
      (is : name.kind = .ident) (closes : closing.kind = .closeParen) :
      MediaFeature [opening, name, closing] ⟨name.literal, none⟩
  | valued {opening name colon closing : Token} {value : List Token}
      (opens : opening.kind = .openParen) (is : name.kind = .ident)
      (follows : colon.kind = .colon) (written : Segment value)
      (closes : closing.kind = .closeParen) :
      MediaFeature (opening :: name :: colon :: (value ++ [closing]))
        ⟨name.literal, some (Verbatim.join value)⟩
  | compared {opening name closing : Token} {value : List Token}
      (opens : opening.kind = .openParen) (is : name.kind = .ident) (written : Segment value)
      (other : ∀ first ∈ value.head?, first.kind ≠ .colon) (closes : closing.kind = .closeParen) :
      MediaFeature (opening :: name :: (value ++ [closing]))
        ⟨name.literal, some (Verbatim.join value)⟩

/-- Features with the word `and` before each. -/
inductive Joined : List Token → List Feature → Prop
  | nil : Joined [] []
  | cons {word : Token} {front rest : List Token} {feature : Feature} {features : List Feature}
      (joins : word.isWord Word.andWord = true) (first : MediaFeature front feature)
      (later : Joined rest features) : Joined (word :: (front ++ rest)) (feature :: features)

/-- Features with the word `and` between them. It may stand before the first one too. -/
inductive Features : List Token → List Feature → Prop
  | joined {tokens : List Token} {features : List Feature} (written : Joined tokens features) :
      Features tokens features
  | direct {front rest : List Token} {feature : Feature} {features : List Feature}
      (first : MediaFeature front feature) (later : Joined rest features) :
      Features (front ++ rest) (feature :: features)

/-- `not`, `only` or nothing, and which of the two it is. -/
inductive Modifier : List Token → Bool → Bool → Prop
  | absent : Modifier [] false false
  | negated {word : Token} (spells : word.isWord Word.notWord = true) : Modifier [word] true false
  | kept {word : Token} (spells : word.isWord Word.onlyWord = true) : Modifier [word] false true

/-- A type or nothing. No word of the grammar is a type. -/
inductive MediaType : List Token → Option Bytes → Prop
  | absent : MediaType [] none
  | present {name : Token} (is : name.kind = .ident) (notAnd : name.isWord Word.andWord = false)
      (notNot : name.isWord Word.notWord = false) (notOnly : name.isWord Word.onlyWord = false) :
      MediaType [name] (some name.literal)

/-- An expression with a type or a feature. -/
inductive Expression : List Token → MediaExpression → Prop
  | intro {front middle back : List Token} {isNot isOnly : Bool} {mediaType : Option Bytes}
      {features : List Feature} (modifier : Modifier front isNot isOnly)
      (type : MediaType middle mediaType) (conditions : Features back features)
      (some : mediaType ≠ none ∨ features ≠ []) :
      Expression (front ++ (middle ++ back)) ⟨isNot, isOnly, mediaType, features⟩

/-- Expressions with a comma before each. -/
inductive Further : List Token → List MediaExpression → Prop
  | nil : Further [] []
  | cons {comma : Token} {front rest : List Token} {expression : MediaExpression}
      {expressions : List MediaExpression} (parts : comma.kind = .comma)
      (written : Expression front expression) (later : Further rest expressions) :
      Further (comma :: (front ++ rest)) (expression :: expressions)

/-- Expressions between commas. -/
inductive Query : List Token → List MediaExpression → Prop
  | intro {front rest : List Token} {expression : MediaExpression}
      {expressions : List MediaExpression} (first : Expression front expression)
      (later : Further rest expressions) : Query (front ++ rest) (expression :: expressions)

variable {token opening name closing word last next : Token}
variable {tokens rest value front : List Token} {feature : Feature} {features : List Feature}

section FeatureReading

theorem segment_reads (written : Segment value) (closes : closing.kind = .closeParen) :
    (featureValue fun _ => false).Reads value (closing :: rest) (Verbatim.join value) := by
  have read : (featureValue fun _ => false).Reads value (closing :: rest) (verbatim value) :=
    .returning (.take (written.balanced.inside_eq closes rest))
  unfold verbatim at read
  rwa [Verbatim.kept_eq_self written.bare] at read

theorem Segment.join_ne_nil (written : Segment value) : Verbatim.join value ≠ [] := by
  obtain ⟨some, _, bare, spelled⟩ := written
  obtain ⟨first, others, rfl⟩ := List.exists_cons_of_ne_nil some
  have filled : verbatim (first :: others) ≠ [] :=
    Verbatim.verbatim_ne_nil (spelled first List.mem_cons_self) (bare first List.mem_cons_self)
  unfold verbatim at filled
  rwa [Verbatim.kept_eq_self bare] at filled

theorem Segment.head (written : Segment value) :
    ∃ first others, value = first :: others ∧ first.kind ≠ .comment ∧
      first.kind ≠ .closeParen := by
  obtain ⟨some, balanced, bare, _⟩ := written
  cases balanced with
  | nil => exact absurd rfl some
  | token _ _ closes _ => exact ⟨_, _, rfl, bare _ List.mem_cons_self, closes⟩
  | group opens _ _ _ => exact ⟨_, _, rfl, bare _ List.mem_cons_self, by simp [opens]⟩

/-- The parentheses of a feature with the name inside, and what is read behind the name. -/
theorem mediaFeature_reads {found : Option Bytes} (is : name.kind = .ident)
    (next : (tokens ++ closing :: rest).head? = some token) (bare : token.kind ≠ .comment)
    (follows : mediaFeatureValue.Reads tokens (closing :: rest) found)
    (closes : closing.kind = .closeParen) :
    mediaFeature.Reads (opening :: name :: (tokens ++ [closing])) rest
      (some ⟨name.literal, found⟩) := by
  have close : closeFeature.Reads [closing] rest () := .expect closes .pure
  refine .advancing (.noComments rfl (by simp [is]) (.current rfl ?_))
  rw [if_pos is]
  refine .advancing (.noComments ?_ bare (.bind follows (.returning close)))
  rw [List.append_assoc]
  exact next

theorem MediaFeature.reads (written : MediaFeature tokens feature) :
    mediaFeature.Reads tokens rest (some feature) := by
  cases written with
  | named opens is closes =>
    have none : mediaFeatureValue.Reads [] (_ :: rest) none :=
      .acceptOther rfl (by simp [closes]) (.currentIs rfl closes .pure)
    exact mediaFeature_reads is rfl (by simp [closes]) none closes
  | @valued _ _ colon closing value opens is follows segment closes =>
    have valued : (Verbatim.join value).isEmpty = false :=
      List.isEmpty_eq_false_iff.2 segment.join_ne_nil
    have read : mediaFeatureValue.Reads (colon :: value) (closing :: rest)
        (some (Verbatim.join value)) := by
      refine .accept follows (.last (segment_reads segment closes) ?_)
      rw [valued]
      exact .last .pure .pure
    exact mediaFeature_reads is rfl (by simp [follows]) read closes
  | @compared _ _ closing value opens is segment other closes =>
    obtain ⟨first, others, rfl, bare, notClosing⟩ := segment.head
    have read : mediaFeatureValue.Reads (first :: others) (closing :: rest)
        (some (Verbatim.join (first :: others))) :=
      .acceptOther rfl (other first rfl)
        (.currentIsOther rfl notClosing (.returning (segment_reads segment closes)))
    exact mediaFeature_reads is rfl bare read closes

theorem MediaFeature.starts (written : MediaFeature tokens feature) :
    ∃ opening others, tokens = opening :: others ∧ opening.kind = .openParen := by
  cases written with
  | named opens _ _ => exact ⟨_, _, rfl, opens⟩
  | valued opens _ _ _ _ => exact ⟨_, _, rfl, opens⟩
  | compared opens _ _ _ _ => exact ⟨_, _, rfl, opens⟩

end FeatureReading

section ExpressionReading

/-- What may stand behind the type of an expression: a feature, the word `and`, or the end of the
expression. -/
def FollowsType (token : Token) : Prop :=
  isConjunct token = true ∨ endsExpression token = true

theorem FollowsType.cases (follows : FollowsType token) :
    token.isWord Word.andWord = true ∨ token.kind = .openParen ∨ endsExpression token = true := by
  rcases follows with conjunct | ends
  · rcases conjunct_cases (by rw [conjunct]; rfl) with opens | joins
    · exact .inr (.inl opens)
    · exact .inl joins
  · exact .inr (.inr ends)

theorem kind_of_endsExpression (ends : endsExpression token = true) :
    token.kind ≠ .ident ∧ token.kind ≠ .openParen ∧ token.kind ≠ .comment := by
  unfold endsExpression Token.isStructural at ends
  refine ⟨fun is => ?_, fun is => ?_, fun is => ?_⟩ <;> simp [is] at ends

theorem isConjunct_of_endsExpression (ends : endsExpression token = true) :
    isConjunct token = false := by
  obtain ⟨notName, notOpening, _⟩ := kind_of_endsExpression ends
  unfold isConjunct Token.isWord
  simp [notName, notOpening]

/-- What may stand behind the type is no type, and no modifier either. -/
theorem FollowsType.other (follows : FollowsType token) :
    token.kind ≠ .comment ∧ (token.kind = .ident → token.isWord Word.andWord = true) := by
  rcases follows.cases with joins | opens | ends
  · exact ⟨by simp [kind_of_isWord joins], fun _ => joins⟩
  · exact ⟨by simp [opens], fun is => by simp [opens] at is⟩
  · obtain ⟨notName, _, bare⟩ := kind_of_endsExpression ends
    exact ⟨bare, fun is => absurd is notName⟩

theorem Joined.starts (written : Joined tokens features) (ends : endsExpression last = true) :
    ∃ next others, tokens ++ last :: rest = next :: others ∧ FollowsType next := by
  cases written with
  | nil => exact ⟨_, _, rfl, .inr ends⟩
  | cons joins _ _ => exact ⟨_, _, rfl, .inl (Bool.or_eq_true_iff.2 (.inr joins))⟩

theorem Features.starts (written : Features tokens features) (ends : endsExpression last = true) :
    ∃ next others, tokens ++ last :: rest = next :: others ∧ FollowsType next := by
  cases written with
  | joined written => exact written.starts ends
  | direct first _ =>
    obtain ⟨opening, others, rfl, opens⟩ := first.starts
    have conjunct : isConjunct opening = true := by simp [isConjunct, opens]
    exact ⟨_, _, rfl, .inl conjunct⟩

/-- The features of an expression are read one by one. -/
abbrev oneFeature : Reading (List Feature) := Option.toList <$> mediaFeature

theorem conjunct_feature_reads (first : MediaFeature tokens feature)
    (follows : next.kind ≠ .comment) :
    (conjunct oneFeature).Reads tokens (next :: rest) [feature] := by
  have read : oneFeature.Reads tokens (next :: rest) [feature] := .map first.reads
  obtain ⟨opening, others, rfl, opens⟩ := first.starts
  exact .currentIs rfl opens (.last read (.noComments rfl follows .pure))

theorem conjunction_reads (joins : word.isWord Word.andWord = true)
    (opens : opening.kind = .openParen) :
    (conjunct oneFeature).Reads [word] (opening :: rest) [] := by
  have is : word.kind = .ident := kind_of_isWord joins
  have joined : conjunction.Reads [word] (opening :: rest) () :=
    .advancing (.noComments rfl (by simp [opens]) (.currentIs rfl opens .pure))
  exact .currentIsOther rfl (by simp [is]) (.last joined .pure)

theorem oneFeature_advances :
    Advances (fun token => !isConjunct token) (conjunct oneFeature) :=
  conjunct_advances fun _ opening => mediaFeature_progresses opening

/-- A feature in front of conditions that are read. -/
theorem feature_first (first : MediaFeature front feature) (written : Joined tokens features)
    (ends : endsExpression last = true)
    (later : (collect (fun token => !isConjunct token) (conjunct oneFeature)).Reads tokens
      (last :: rest) features) :
    (collect (fun token => !isConjunct token) (conjunct oneFeature)).Reads (front ++ tokens)
      (last :: rest) (feature :: features) := by
  obtain ⟨next, others, behind, follows⟩ := written.starts ends
  have read : (conjunct oneFeature).Reads front (tokens ++ last :: rest) [feature] := by
    rw [behind]
    exact conjunct_feature_reads first follows.other.1
  obtain ⟨opening, inner, rfl, opens⟩ := first.starts
  exact .collect_cons oneFeature_advances (by simp [isConjunct, opens]) read later

theorem Joined.reads (written : Joined tokens features) (ends : endsExpression last = true) :
    (collect (fun token => !isConjunct token) (conjunct oneFeature)).Reads tokens (last :: rest)
      features := by
  induction written with
  | nil => exact .collect_nil (by rw [isConjunct_of_endsExpression ends]; rfl)
  | cons joins first written ih =>
    have later := feature_first first written ends ih
    obtain ⟨opening, inner, rfl, opens⟩ := first.starts
    exact .collect_cons oneFeature_advances (by simp [isConjunct, joins])
      (conjunction_reads joins opens) later

theorem Features.reads (written : Features tokens features) (ends : endsExpression last = true) :
    (conjuncts oneFeature).Reads tokens (last :: rest) features := by
  obtain ⟨next, others, behind, follows⟩ := written.starts ends
  refine .noComments (congrArg List.head? behind) follows.other.1 ?_
  cases written with
  | joined written => exact written.reads ends
  | direct first written => exact feature_first first written ends (written.reads ends)

/-- Behind the modifier stands neither a comment nor a modifier. -/
theorem MediaType.starts {middle back : List Token} {mediaType : Option Bytes}
    (type : MediaType middle mediaType) (conditions : Features back features)
    (ends : endsExpression last = true) :
    ∃ next others, middle ++ (back ++ last :: rest) = next :: others ∧ next.kind ≠ .comment ∧
      next.isWord Word.notWord = false ∧ next.isWord Word.onlyWord = false := by
  cases type with
  | absent =>
    obtain ⟨next, others, behind, follows⟩ := conditions.starts ends
    refine ⟨next, others, behind, follows.other.1, ?_⟩
    by_cases is : next.kind = .ident
    · have joins := follows.other.2 is
      exact ⟨Token.isWord_other joins rfl, Token.isWord_other joins rfl⟩
    · simp [Token.isWord, is]
  | present is _ notNot notOnly => exact ⟨_, _, rfl, by simp [is], notNot, notOnly⟩

theorem MediaType.reads {middle : List Token} {mediaType : Option Bytes}
    (type : MediaType middle mediaType) (follows : FollowsType next) :
    Grammar.mediaType.Reads middle (next :: rest) mediaType := by
  cases type with
  | absent =>
    refine .current rfl ?_
    rw [if_neg fun both => ?_]
    · exact .pure
    · have joins := follows.other.2 both.1
      simp [joins] at both
  | present is notAnd _ _ =>
    refine .current rfl ?_
    rw [if_pos ⟨is, by rw [notAnd]; rfl⟩]
    exact .advancing .pure

theorem Modifier.reads {isNot isOnly : Bool} (modifier : Modifier front isNot isOnly)
    (notNot : next.isWord Word.notWord = false) (notOnly : next.isWord Word.onlyWord = false) :
    mediaModifier.Reads front (next :: rest) (isNot, isOnly) := by
  cases modifier with
  | absent => exact .acceptWordOther rfl notNot (.acceptWordOther rfl notOnly .pure)
  | negated spells => exact .acceptWord spells .pure
  | kept spells =>
    exact .acceptWordOther rfl (Token.isWord_other spells rfl) (.acceptWord spells .pure)

theorem dropRest_reads {stop : Token → Bool} {place : String} (stopped : stop last = true) :
    (dropRest stop place).Reads [] (last :: rest) () := by
  refine .current rfl ?_
  rw [if_pos stopped]
  exact .pure

variable {expression : MediaExpression} {expressions : List MediaExpression}

/-- An expression starts with a word or with the parenthesis of a feature. -/
theorem Expression.starts (written : Expression tokens expression) :
    ∃ first others, tokens = first :: others ∧ (first.kind = .ident ∨ first.kind = .openParen) := by
  cases written with
  | intro modifier type conditions some =>
    cases modifier with
    | negated spells => exact ⟨_, _, rfl, .inl (kind_of_isWord spells)⟩
    | kept spells => exact ⟨_, _, rfl, .inl (kind_of_isWord spells)⟩
    | absent =>
      cases type with
      | present is _ _ _ => exact ⟨_, _, rfl, .inl is⟩
      | absent =>
        cases conditions with
        | direct first _ =>
          obtain ⟨opening, others, rfl, opens⟩ := first.starts
          exact ⟨_, _, rfl, .inr opens⟩
        | joined written =>
          cases written with
          | nil => simp at some
          | cons joins _ _ => exact ⟨_, _, rfl, .inl (kind_of_isWord joins)⟩

theorem Expression.head (written : Expression tokens expression) :
    ∃ first others, tokens = first :: others ∧ first.isStructural = false ∧
      first.kind ≠ .comment := by
  obtain ⟨first, others, rfl, is⟩ := written.starts
  refine ⟨first, others, rfl, ?_⟩
  rcases is with word | opens
  · exact ⟨Token.isStructural_of_kind word, by simp [word]⟩
  · exact ⟨Token.isStructural_of_kind opens, by simp [opens]⟩

/-- An expression that is written right is read up to the comma or the token behind the query. -/
theorem Expression.reads (written : Expression tokens expression)
    (ends : endsExpression last = true) :
    mediaExpression.Reads tokens (last :: rest) expression := by
  obtain ⟨first, others, same, _, bare⟩ := written.head
  have head : (tokens ++ last :: rest).head? = some first := by
    rw [same]
    rfl
  cases written with
  | @intro front middle back isNot isOnly mediaType features modifier type conditions some =>
    obtain ⟨next, behind, middles, other, notNot, notOnly⟩ := type.starts conditions ends
    obtain ⟨after, tail, follows, conjunct⟩ := conditions.starts ends
    have modified : mediaModifier.Reads front (middle ++ back ++ last :: rest) (isNot, isOnly) := by
      rw [List.append_assoc, middles]
      exact modifier.reads notNot notOnly
    have typed : Grammar.mediaType.Reads middle (back ++ last :: rest) mediaType := by
      rw [follows]
      exact type.reads conjunct
    refine .noComments head bare (.bind modified (.noComments ?_ other (.bind typed ?_)))
    · rw [List.append_assoc, middles]
      rfl
    · exact .last (conditions.reads ends) (.last (dropRest_reads ends) .pure)

end ExpressionReading

section QueryReading

variable {comma : Token} {expression : MediaExpression} {expressions : List MediaExpression}

theorem Further.starts (written : Further tokens expressions) (stops : last.isStructural = true) :
    ∃ next others, tokens ++ last :: rest = next :: others ∧ endsExpression next = true := by
  cases written with
  | nil => exact ⟨_, _, rfl, Bool.or_eq_true_iff.2 (.inr stops)⟩
  | cons parts _ _ => exact ⟨_, _, rfl, Bool.or_eq_true_iff.2 (.inl (beq_iff_eq.2 parts))⟩

/-- An expression in front of others, or of the token behind the query. -/
theorem Expression.reads_before (written : Expression front expression)
    (later : Further tokens expressions) (stops : last.isStructural = true) :
    mediaExpression.Reads front (tokens ++ last :: rest) expression := by
  obtain ⟨next, others, behind, ends⟩ := later.starts stops
  rw [behind]
  exact written.reads ends

theorem nextExpression_reads (written : Expression front expression)
    (read : mediaExpression.Reads front rest expression) :
    nextExpression.Reads (comma :: front) rest [expression] := by
  obtain ⟨first, others, rfl, _, bare⟩ := written.head
  exact .advancing (.noComments rfl bare (.returning read))

theorem Further.reads (written : Further tokens expressions) (stops : last.isStructural = true) :
    (collect (fun token => token.kind != .comma) nextExpression).Reads tokens (last :: rest)
      expressions := by
  induction written with
  | nil =>
    refine .collect_nil ?_
    rw [bne_iff_ne]
    intro is
    simp [Token.isStructural, is] at stops
  | cons parts written later ih =>
    exact .collect_cons nextExpression_advances (by simp [parts])
      (nextExpression_reads written (written.reads_before later stops)) ih

theorem Query.starts {first : Token} (written : Query (first :: tokens) expressions) :
    first.kind = .ident ∨ first.kind = .openParen := by
  generalize same : first :: tokens = all at written
  cases written with
  | intro written _ =>
    obtain ⟨other, others, rfl, is⟩ := written.starts
    obtain ⟨rfl, -⟩ := List.cons.inj same
    exact is

theorem Query.reads (written : Query tokens expressions) (stops : last.isStructural = true) :
    mediaQuery.Reads tokens (last :: rest) ⟨expressions⟩ := by
  cases written with
  | intro written later =>
    have read : mediaExpression.Reads _ (_ ++ last :: rest) _ := written.reads_before later stops
    obtain ⟨first, others, rfl, plain, bare⟩ := written.head
    refine .noComments rfl bare (.current rfl ?_)
    rw [plain]
    exact .bind read (.returning (later.reads stops))

end QueryReading

end CssSyntax.Written

namespace CssSyntax

open Grammar

/-- The grammar of media queries is read to the last token. A query of any number of expressions is
read as just these expressions: nothing wrong is found in them, and the parser stands at the brace
behind them. -/
theorem mediaQuery_of_written {brace : Token} {tokens rest : List Token}
    {expressions : List MediaExpression} (written : Written.Query tokens expressions)
    (opens : brace.kind = .openBrace) (parser : Parser)
    (ahead : parser.ahead = tokens ++ brace :: rest) :
    mediaQuery parser = (⟨expressions⟩, { parser with ahead := brace :: rest }) :=
  written.reads (by simp [Token.isStructural, opens]) parser ahead

/-- Both modifiers, a value with parentheses of its own, and two features, one of them a range. -/
theorem mediaQuery_of_written_ranges :
    ∃ parser, parser = Parser.ofTokens .standard
        (tokenize (utf8 "not a and (b: (c) d), (e >= 1px) and (f), only g \x7b")) ∧
      mediaQuery parser =
        (⟨[⟨true, false, some (utf8 "a"), [⟨utf8 "b", some (utf8 "(c) d")⟩]⟩,
            ⟨false, false, none, [⟨utf8 "e", some (utf8 ">= 1px")⟩, ⟨utf8 "f", none⟩]⟩,
            ⟨false, true, some (utf8 "g"), []⟩]⟩,
          { parser with ahead := [⟨.openBrace, utf8 "\x7b", ⟨1, 50, 49⟩⟩] }) := by
  have is := Token.kind_inLine
  have group : Written.Segment
      [.inLine .openParen "(" 14, .inLine .ident "c" 15, .inLine .closeParen ")" 16,
        .inLine .ident "d" 18] := by
    refine ⟨List.cons_ne_nil _ _, ?_, by decide, by decide⟩
    have inside : Written.Argument [.inLine .ident "c" 15] := .token rfl nofun nofun .nil
    exact .group rfl inside rfl (.token rfl (by decide) (by decide) .nil)
  have range : Written.Segment
      [.inLine .greater ">" 25, .inLine .equals "=" 26, .inLine .number "1" 28,
        .inLine .ident "px" 29] := by
    refine ⟨List.cons_ne_nil _ _, ?_, by decide, by decide⟩
    iterate 4 refine .token rfl (by decide) (by decide) ?_
    exact .nil
  have valued : Written.MediaFeature _ ⟨utf8 "b", some (utf8 "(c) d")⟩ :=
    .valued (is .openParen "(" 10) (is .ident "b" 11) (is .colon ":" 12) group
      (is .closeParen ")" 19)
  have compared : Written.MediaFeature _ ⟨utf8 "e", some (utf8 ">= 1px")⟩ :=
    .compared (is .openParen "(" 22) (is .ident "e" 23) range (by decide) (is .closeParen ")" 31)
  have named : Written.MediaFeature _ ⟨utf8 "f", none⟩ :=
    .named (is .openParen "(" 37) (is .ident "f" 38) (is .closeParen ")" 39)
  have type (name : String) (offset : Nat)
      (other : ∀ word ∈ [Word.andWord, Word.notWord, Word.onlyWord],
        Bytes.sameIgnoringCase (utf8 name) word = false) :
      Written.MediaType [.inLine .ident name offset] (some (utf8 name)) :=
    .present rfl (other _ (by simp)) (other _ (by simp)) (other _ (by simp))
  have negated : (Token.inLine .ident "not" 0).isWord Word.notWord = true := by decide
  have kept : (Token.inLine .ident "only" 42).isWord Word.onlyWord = true := by decide
  have joins (offset : Nat) : (Token.inLine .ident "and" offset).isWord Word.andWord = true := rfl
  have first := Written.Expression.intro (.negated negated) (type "a" 4 (by decide))
    (.joined (.cons (joins 6) valued .nil)) (.inl nofun)
  have second := Written.Expression.intro .absent .absent
    (.direct compared (.cons (joins 33) named .nil)) (.inr (List.cons_ne_nil _ _))
  have third := Written.Expression.intro (.kept kept) (type "g" 47 (by decide)) (.joined .nil)
    (.inl nofun)
  have others := Written.Further.cons (is .comma "," 20) second
    (.cons (is .comma "," 40) third .nil)
  refine ⟨_, rfl, ?_⟩
  exact mediaQuery_of_written (.intro first others) (is .openBrace "\x7b" 49) _
    (by decide +kernel)

end CssSyntax

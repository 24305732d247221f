import CssSyntax.Proofs.Respelling.Link

/-! Values, declarations and conditions of a source that was written again. -/

namespace CssSyntax.Respelling

open Grammar Links

variable {respelling : Respelling} {parser : Parser} {room : Nat}

section Values

theorem numberWithUnit_links {number : Token} :
    respelling.Links (List.map respelling.byte) (numberWithUnit number)
      (numberWithUnit (respelling.token number)) parser := by
  apply look unitFollows_respelled
  apply ite Iff.rfl
  · intro _
    apply after advance
    apply current
    exact advancing List.map_append.symm
  · intro _
    exact advancing rfl

theorem numeric_carries : respelling.Carries (List.map respelling.byte) numeric parser := by
  apply take (Span.before_map respelling.token fun _ => rfl)
  rw [literals_map]
  apply current
  apply ite Iff.rfl
  · intro _
    exact returning numberWithUnit_links fun _ => List.map_append.symm
  · intro _
    exact pure rfl

theorem hashValue_carries :
    respelling.Carries (Value.respell respelling.byte) hashValue parser := by
  apply current
  apply after advance
  rw [token_stop]
  apply take (glued_map _)
  rw [literals_map]
  exact pure (congrArg Value.basic List.map_append.symm)

/-- What a token means as a value is respelled with its bytes. -/
theorem tokenValue_carries {meaning : Bytes → Value}
    (same : meaning (parser.current.literal.map respelling.byte) =
      (meaning parser.current.literal).respell respelling.byte) :
    respelling.Carries (Value.respell respelling.byte) (tokenValue meaning) parser := by
  apply current
  exact advancing same

theorem plainValue_carries :
    respelling.Carries (Value.respell respelling.byte) plainValue parser :=
  tokenValue_carries rfl

theorem markValue_carries :
    respelling.Carries (Value.respell respelling.byte) markValue parser := by
  apply look startsNumeric_respelled
  apply ite Iff.rfl
  · intro _
    exact returning numeric_carries fun _ => rfl
  · intro _
    exact plainValue_carries

theorem droppedValue_carries :
    respelling.Carries (Option.map (Value.respell respelling.byte)) droppedValue parser :=
  after report (advancing rfl)

section Calls

variable {arguments : Reading (List Value)}
variable (inner : ∀ parser,
  respelling.Carries (List.map (Value.respell respelling.byte)) arguments parser)
include inner

theorem callWith_carries :
    respelling.Carries (Value.respell respelling.byte) (callWith arguments) parser := by
  apply current
  apply after advance
  apply after advance
  apply returning (inner _)
  intro args
  rw [Value.respell, Value.respellAll_eq]
  rfl

theorem groupValue_carries :
    respelling.Carries (Value.respell respelling.byte) (groupValue arguments) parser := by
  apply after advance
  apply returning (inner _)
  intro args
  rw [Value.respell, Value.respellAll_eq]
  rfl

theorem nameValue_carries :
    respelling.Carries (Value.respell respelling.byte) (nameValue arguments) parser := by
  apply nextIs
  apply ite Iff.rfl
  · intro _
    exact callWith_carries inner
  · intro _
    exact plainValue_carries

theorem valueWith_carries :
    respelling.Carries (Option.map (Value.respell respelling.byte)) (valueWith arguments)
      parser := by
  apply withQuotes
  intro quoted
  apply current
  generalize here : parser.current = token
  obtain ⟨kind, literal, start⟩ := token
  cases kind with
  | number => exact map (map numeric_carries fun _ => rfl) fun _ => rfl
  | minus | plus | dot => exact map markValue_carries fun _ => rfl
  | ident => exact map (nameValue_carries inner) fun _ => rfl
  | uri => exact map (tokenValue_carries (ofUri_map _)) fun _ => rfl
  | string =>
    have opening := quoted.current (congrArg Token.kind here)
    exact map (tokenValue_carries (congrArg Value.string (ofLiteral_map opening))) fun _ => rfl
  | openParen => exact map (groupValue_carries inner) fun _ => rfl
  | hash => exact map hashValue_carries fun _ => rfl
  | illegal | openBrace | exclamation => exact droppedValue_carries
  | eof => exact pure rfl
  | _ => exact map plainValue_carries fun _ => rfl

end Calls

theorem separatedValue_carries {value : Reading (Option Value)}
    (inner : ∀ parser,
      respelling.Carries (Option.map (Value.respell respelling.byte)) value parser) :
    respelling.Carries (List.map (Value.respell respelling.byte)) (separatedValue value)
      parser := by
  apply current
  apply ite Iff.rfl
  · intro _
    exact advancing rfl
  · intro _
    exact returning (inner _) fun found => Option.toList_map ..

theorem closeArguments_carries : respelling.Carries id closeArguments parser := by
  apply current
  apply ite Iff.rfl
  · intro _
    exact advance
  · intro _
    exact ite Iff.rfl (fun _ => report) fun _ => report

theorem arguments_carries (room : Nat) (parser : Parser) :
    respelling.Carries (List.map (Value.respell respelling.byte)) (arguments room) parser := by
  induction room generalizing parser with
  | zero =>
    apply after report
    apply after skipGroup
    exact pure rfl
  | succ room ih =>
    have values (parser : Parser) :
        respelling.Carries (List.map (Value.respell respelling.byte))
          (separatedValue (valueWith (arguments room))) parser :=
      separatedValue_carries fun _ => valueWith_carries ih
    apply Links.bind (collect (fun _ => rfl) (fun parser _ => values parser) parser)
    apply after closeArguments_carries
    exact pure rfl

theorem value_carries :
    respelling.Carries (Option.map (Value.respell respelling.byte)) (value room) parser :=
  valueWith_carries (arguments_carries room)

theorem call_carries :
    respelling.Carries (Value.respell respelling.byte) (call room) parser :=
  callWith_carries (arguments_carries room)

end Values

section Declarations

def part (respelling : Respelling) : DeclarationPart → DeclarationPart
  | .atom value => .atom (value.respell respelling.byte)
  | .important => .important

theorem values_part (parts : List DeclarationPart) :
    (parts.map respelling.part).filterMap DeclarationPart.value? =
      (parts.filterMap DeclarationPart.value?).map (Value.respell respelling.byte) := by
  rw [List.filterMap_map, List.map_filterMap]
  congr 1
  funext part
  cases part <;> rfl

theorem isImportant_part (parts : List DeclarationPart) :
    (parts.map respelling.part).any DeclarationPart.isImportant =
      parts.any DeclarationPart.isImportant := by
  rw [List.any_map]
  congr 1
  funext part
  cases part <;> rfl

theorem declarationPart_carries :
    respelling.Carries (List.map respelling.part) (declarationPart (value room)) parser := by
  apply look importantFollows_respelled
  apply ite Iff.rfl
  · intro _
    apply after advance
    exact advancing rfl
  · intro _
    apply returning (separatedValue_carries fun _ => value_carries)
    intro values
    rw [List.map_map, List.map_map]
    rfl

theorem declarationBody_links {key : Bytes} :
    respelling.Links (Option.map (Declaration.respell respelling.byte))
      (declarationBody room key) (declarationBody room (key.map respelling.byte)) parser := by
  apply Links.bind (collect (fun _ => rfl) (fun _ _ => declarationPart_carries) parser)
  dsimp only
  rw [values_part, isImportant_part, isCustomProperty_map, List.isEmpty_map]
  apply ite Iff.rfl
  · intro _
    exact reporting rfl
  · intro _
    exact pure rfl

theorem declaration_carries :
    respelling.Carries (Option.map (Declaration.respell respelling.byte)) (declaration room)
      parser := by
  apply current
  apply ite Iff.rfl
  · intro _
    apply after advance
    apply after expect
    apply ite Iff.rfl
    · intro _
      exact declarationBody_links
    · intro _
      exact after skipDeclaration (pure rfl)
  · intro _
    apply after report
    exact after skipDeclaration (pure rfl)

theorem closeBlock_carries {place : String} : respelling.Carries id (closeBlock place) parser :=
  currentIs (ite Iff.rfl (fun _ => advance) fun _ => report)

theorem blockDeclaration_carries :
    respelling.Carries (List.map (Declaration.respell respelling.byte)) (blockDeclaration room)
      parser := by
  apply current
  apply ite Iff.rfl
  · intro _
    exact advancing rfl
  intro _
  apply ite Iff.rfl
  · intro _
    exact returning declaration_carries fun found => Option.toList_map ..
  · intro _
    apply after report
    exact after skipDeclaration (pure rfl)

/-- The loop of a block, if the change respects the joining of what its members yield. -/
theorem blockBody_carries {α : Type} {changes : List α → List α} {place : String}
    {member : Reading (List α)} (nil : changes [] = [])
    (append : ∀ front back, changes (front ++ back) = changes front ++ changes back)
    (members : ∀ parser, respelling.Carries changes member parser) :
    respelling.Carries changes (blockBody place member) parser := by
  apply Links.bind (joined (fun _ => rfl) nil append (fun parser _ => members parser) parser)
  apply after closeBlock_carries
  exact pure rfl

theorem blockWith_carries {α : Type} {change : α → α} {prelude : String} {body : Reading α}
    (inner : ∀ parser, respelling.Carries change body parser) :
    respelling.Carries (Option.map change) (blockWith prelude body) parser := by
  apply after expect
  apply ite Iff.rfl
  · intro _
    exact returning (inner _) fun _ => rfl
  · intro _
    exact after skipBlock (pure rfl)

theorem declarationBlock_carries {place : String} :
    respelling.Carries (Option.map (List.map (Declaration.respell respelling.byte)))
      (declarationBlock room place) parser :=
  blockWith_carries fun _ =>
    blockBody_carries rfl (fun _ _ => List.map_append) fun _ => blockDeclaration_carries

end Declarations

section MediaQueries

theorem featureValue_carries {stop : Token → Bool}
    (blind : ∀ token, stop (respelling.token token) = stop token) :
    respelling.Carries (List.map respelling.byte) (featureValue stop) parser := by
  apply take (Span.inside_map token_kind blind 0)
  exact pure (verbatim_map _)

theorem mediaFeatureValue_carries :
    respelling.Carries (Option.map (List.map respelling.byte)) mediaFeatureValue parser := by
  apply after accept
  apply ite Iff.rfl
  · intro _
    apply Links.bind (featureValue_carries fun _ => rfl)
    apply after (reportIf List.isEmpty_map)
    exact pure rfl
  · intro _
    apply currentIs
    apply ite Iff.rfl
    · intro _
      exact pure rfl
    · intro _
      exact returning (featureValue_carries fun _ => rfl) fun _ => rfl

theorem closeFeature_carries : respelling.Carries id closeFeature parser := by
  apply after expect
  apply ite Iff.rfl
  · intro _
    exact pure rfl
  · intro _
    exact skipGroup

theorem mediaFeature_carries :
    respelling.Carries (Option.map (Feature.respell respelling.byte)) mediaFeature parser := by
  apply after advance
  apply after skipComments
  apply current
  apply ite Iff.rfl
  · intro _
    apply after advance
    apply after skipComments
    apply Links.bind mediaFeatureValue_carries
    apply after closeFeature_carries
    exact Links.pure rfl
  · intro _
    apply after report
    exact after skipGroup (pure rfl)

theorem conjunction_carries : respelling.Carries id conjunction parser := by
  apply after advance
  apply after skipComments
  apply currentIs
  exact reportIf rfl

theorem isConjunct_token (token : Token) :
    isConjunct (respelling.token token) = isConjunct token := by
  unfold isConjunct
  rw [token_isWord]
  rfl

theorem conjuncts_carries {α : Type} {change : α → α} {condition : Reading (List α)}
    (inner : ∀ parser, respelling.Carries (List.map change) condition parser) :
    respelling.Carries (List.map change) (conjuncts condition) parser := by
  apply after skipComments
  apply collect fun token => congrArg not (isConjunct_token token)
  intro parser _
  apply currentIs
  apply ite Iff.rfl
  · intro _
    apply Links.bind (inner _)
    exact after skipComments (pure rfl)
  · intro _
    exact after conjunction_carries (pure rfl)

theorem mediaModifier_carries : respelling.Carries id mediaModifier parser := by
  apply after acceptWord
  apply ite Iff.rfl
  · intro _
    exact pure rfl
  · intro _
    apply after acceptWord
    exact ite Iff.rfl (fun _ => pure rfl) fun _ => pure rfl

theorem mediaType_carries :
    respelling.Carries (Option.map (List.map respelling.byte)) mediaType parser := by
  apply current
  rw [token_isWord]
  apply ite Iff.rfl
  · intro _
    exact advancing rfl
  · intro _
    exact pure rfl

theorem dropRest_carries {stop : Token → Bool} {place : String}
    (blind : ∀ token, stop (respelling.token token) = stop token) :
    respelling.Carries id (dropRest stop place) parser := by
  apply current
  rw [blind]
  apply ite Iff.rfl
  · intro _
    exact pure rfl
  · intro _
    exact after report (skip (Span.before_map respelling.token blind))

theorem mediaExpression_carries :
    respelling.Carries (MediaExpression.respell respelling.byte) mediaExpression parser := by
  have features (parser : Parser) :
      respelling.Carries (List.map (Feature.respell respelling.byte))
        (Option.toList <$> mediaFeature) parser :=
    map mediaFeature_carries fun _ => Option.toList_map ..
  apply after skipComments
  apply after mediaModifier_carries
  apply after skipComments
  apply Links.bind mediaType_carries
  apply Links.bind (conjuncts_carries features)
  apply after (dropRest_carries fun _ => rfl)
  exact pure rfl

theorem nextExpression_carries :
    respelling.Carries (List.map (MediaExpression.respell respelling.byte)) nextExpression
      parser := by
  apply after advance
  apply after skipComments
  exact returning mediaExpression_carries fun _ => rfl

theorem mediaQuery_carries :
    respelling.Carries (MediaQuery.respell respelling.byte) mediaQuery parser := by
  apply after skipComments
  apply current
  apply ite Iff.rfl
  · intro _
    exact pure rfl
  · intro _
    apply Links.bind mediaExpression_carries
    exact returning (collect (fun _ => rfl) (fun _ _ => nextExpression_carries) _) fun _ => rfl

end MediaQueries

section Supports

theorem supportsValue_carries :
    respelling.Carries (List.map (Value.respell respelling.byte)) (supportsValue room)
      parser := by
  apply look importantFollows_respelled
  apply ite Iff.rfl
  · intro _
    exact returning plainValue_carries fun _ => rfl
  · intro _
    exact separatedValue_carries fun _ => value_carries

theorem supportsDeclaration_carries :
    respelling.Carries (SupportsCondition.respell respelling.byte) (supportsDeclaration room)
      parser := by
  apply current
  apply after advance
  apply after advance
  apply Links.bind (collect (fun _ => rfl) (fun _ _ => supportsValue_carries) _)
  apply after (reportIf List.isEmpty_map)
  exact pure rfl

theorem supportsCall_carries :
    respelling.Carries (SupportsCondition.respell respelling.byte) (supportsCall room)
      parser := by
  apply current
  apply after advance
  apply after advance
  exact returning (arguments_carries room _) fun _ => rfl

theorem supportsOperator_links (token : Token) :
    respelling.Links (SupportsCondition.respell respelling.byte) (supportsOperator token)
      (supportsOperator (respelling.token token)) parser :=
  advancing rfl

section Groups

variable {group : Reading (Option SupportsCondition)}
variable (inner : ∀ parser,
  respelling.Carries (Option.map (SupportsCondition.respell respelling.byte)) group parser)
include inner

theorem supportsNegation_carries :
    respelling.Carries (Option.map (SupportsCondition.respell respelling.byte))
      (supportsNegation group) parser := by
  apply after advance
  apply after skipComments
  apply currentIs
  apply ite Iff.rfl
  · intro _
    apply returning (inner _)
    intro found
    cases found <;> rfl
  · intro _
    exact reporting rfl

theorem supportsName_links (token : Token) :
    respelling.Links (List.map (SupportsCondition.respell respelling.byte))
      (supportsName room group token) (supportsName room group (respelling.token token))
      parser := by
  unfold supportsName
  rw [token_isWord, token_isWord, token_isWord]
  apply ite Iff.rfl
  · intro _
    exact returning (supportsOperator_links token) fun _ => rfl
  intro _
  apply ite Iff.rfl
  · intro _
    exact returning (supportsNegation_carries inner) fun _ => Option.toList_map ..
  intro _
  apply nextIs
  apply ite Iff.rfl
  · intro _
    exact returning supportsDeclaration_carries fun _ => rfl
  intro _
  apply nextIs
  apply ite Iff.rfl
  · intro _
    exact returning supportsCall_carries fun _ => rfl
  · intro _
    exact after report (advancing rfl)

theorem supportsPart_carries :
    respelling.Carries (List.map (SupportsCondition.respell respelling.byte))
      (supportsPart room group) parser := by
  apply current
  generalize parser.current = token
  obtain ⟨kind, literal, start⟩ := token
  cases kind with
  | comment => exact advancing rfl
  | openParen => exact returning (inner _) fun _ => Option.toList_map ..
  | ident => exact supportsName_links inner _
  | _ => exact after report (advancing rfl)

theorem supportsSequence_carries {terminator : Kind} :
    respelling.Carries (List.map (SupportsCondition.respell respelling.byte))
      (supportsSequence room group terminator) parser :=
  collect (fun _ => rfl) (fun _ _ => supportsPart_carries inner) parser

end Groups

theorem ofSequence_map (conditions : List SupportsCondition) :
    SupportsCondition.ofSequence
        (conditions.map (SupportsCondition.respell respelling.byte)) =
      (SupportsCondition.ofSequence conditions).respell respelling.byte := by
  match conditions with
  | [] => rfl
  | [_] => rfl
  | first :: second :: rest =>
    rw [List.map_cons, List.map_cons]
    unfold SupportsCondition.ofSequence
    dsimp only
    rw [SupportsCondition.respell, SupportsCondition.respellAll_eq]
    rfl

theorem supportsGroup_carries (room : Nat) (parser : Parser) :
    respelling.Carries (Option.map (SupportsCondition.respell respelling.byte))
      (supportsGroup room) parser := by
  induction room generalizing parser with
  | zero =>
    apply after report
    apply after advance
    apply after skipGroup
    exact pure rfl
  | succ room ih =>
    apply after advance
    apply Links.bind (supportsSequence_carries ih)
    apply after (reportIf List.isEmpty_map)
    apply after expect
    apply Links.pure
    rw [List.isEmpty_map, ofSequence_map, apply_ite (Option.map _)]
    rfl

theorem supportsCondition_carries {terminator : Kind} :
    respelling.Carries (SupportsCondition.respell respelling.byte)
      (supportsCondition room terminator) parser := by
  apply map (supportsSequence_carries (supportsGroup_carries room))
  intro conditions
  rw [SupportsCondition.respell, SupportsCondition.respellAll_eq]

end Supports

section Containers

theorem isAnd_token (token : Token) : isAnd (respelling.token token) = isAnd token :=
  token_isWord token _

theorem containerFeatureValue_carries :
    respelling.Carries (Option.map (List.map respelling.byte)) containerFeatureValue
      parser := by
  apply after accept
  apply ite Iff.rfl
  · intro _
    exact returning (featureValue_carries isAnd_token) fun _ => rfl
  · intro _
    apply current
    rw [isAnd_token]
    apply ite Iff.rfl
    · intro _
      exact pure rfl
    · intro _
      exact returning (featureValue_carries isAnd_token) fun _ => rfl

theorem containerName_links (token : Token) :
    respelling.Links (List.map (Feature.respell respelling.byte)) (containerName token)
      (containerName (respelling.token token)) parser := by
  unfold containerName
  rw [isAnd_token]
  apply ite Iff.rfl
  · intro _
    exact advancing rfl
  · intro _
    apply after advance
    apply after skipComments
    exact returning containerFeatureValue_carries fun _ => rfl

theorem containerPart_carries {group : Reading ContainerCondition}
    (inner : ∀ parser,
      respelling.Carries (ContainerCondition.respell respelling.byte) group parser) :
    respelling.Carries (List.map (Feature.respell respelling.byte)) (containerPart group)
      parser := by
  have token : respelling.Carries (List.map (Feature.respell respelling.byte))
      (containerToken group) parser := by
    apply current
    generalize parser.current = token
    obtain ⟨kind, literal, start⟩ := token
    cases kind with
    | ident => exact containerName_links _
    | openParen => exact map (inner _) fun _ => rfl
    | _ => exact after report (advancing rfl)
  apply Links.bind token
  exact after skipComments (pure rfl)

theorem containerCondition_carries (room : Nat) (parser : Parser) :
    respelling.Carries (ContainerCondition.respell respelling.byte) (containerCondition room)
      parser := by
  induction room generalizing parser with
  | zero =>
    apply after report
    apply after advance
    apply after skipGroup
    exact pure rfl
  | succ room ih =>
    apply after advance
    apply after skipComments
    apply Links.bind (collect (fun _ => rfl) (fun _ _ => containerPart_carries ih) _)
    apply after expect
    exact pure rfl

theorem containerLabel_carries :
    respelling.Carries (Option.map (List.map respelling.byte)) containerLabel parser := by
  apply current
  apply look isContainerName_respelled
  apply ite Iff.rfl
  · intro _
    exact advancing rfl
  · intro _
    exact pure rfl

theorem containerQuery_carries :
    respelling.Carries (List.map (ContainerCondition.respell respelling.byte))
      (containerQuery room) parser := by
  apply Links.bind (conjuncts_carries fun _ =>
    returning (containerCondition_carries room _) fun _ => rfl)
  apply after (dropRest_carries fun _ => rfl)
  exact pure rfl

end Containers

end CssSyntax.Respelling

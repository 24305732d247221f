import CssSyntax.Proofs.Comments.Clear

/-! Comments in values, declarations and the preludes of at-rules. Each production is given at a
token that is no comment, unless it drops comments first. -/

namespace CssSyntax.Grammar

open Reading Clear Verbatim

variable {α : Type} {parser : Parser} {room : Nat}

theorem plain_of_kind {token : Token} {kind : Kind} (is : token.kind = kind)
    (other : kind ≠ .comment) : token.kind ≠ .comment :=
  is ▸ other

section Values

theorem numberWithUnit_clear {number : Token} (plain : parser.current.kind ≠ .comment) :
    (numberWithUnit number).Clear parser := by
  refine look (fun commented => Parser.unitFollows_bare commented plain) (ite (fun unit => ?_) ?_)
  · have there : (parser.skip 1).current.kind ≠ .comment := by
      rw [Parser.current_skip]
      rcases Bool.or_eq_true_iff.1 (Bool.and_eq_true_iff.1 unit).2 with percentage | name
      · exact plain_of_kind (nextIs_iff.1 percentage) nofun
      · exact plain_of_kind (nextIs_iff.1 (Bool.and_eq_true_iff.1 name).1) nofun
    exact step plain (current there (step there pure))
  · exact fun _ => step plain pure

theorem numeric_clear {front rest : List Token} {number : Token}
    (split : parser.ahead = front ++ number :: rest)
    (marks : ∀ token ∈ front, (Parser.isSign token || token.kind == .dot) = true)
    (is : number.kind = .number) : numeric.Clear parser := by
  have plain : ∀ token ∈ front, token.kind ≠ .comment := by
    intro token member comment
    simpa [Parser.isSign, comment] using marks token member
  have real : number.kind ≠ .comment := plain_of_kind is (by decide)
  have unmarked : (Parser.isSign number || number.kind == .dot) = false := by
    simp [Parser.isSign, is]
  have count : Span.marks parser.ahead = front.length := by
    unfold Span.marks Span.before
    rw [split, List.takeWhile_append_of_pos (by simpa using marks)]
    simp [unmarked]
  have behind : parser.ahead.drop (Span.marks parser.ahead) = number :: rest := by
    rw [count, split, List.drop_left]
  have there : (parser.skip (Span.marks parser.ahead)).current = number := by
    unfold Parser.skip
    rw [behind]
    rfl
  refine take (fun _ => Span.before_clear ?_) ?_ ?_
  · rw [show parser.ahead.drop (Span.before _ parser.ahead) = number :: rest from behind,
      kept_cons real]
    intro token member
    obtain rfl := Option.some.inj member
    rw [unmarked]
    rfl
  · rw [count, split, List.take_left, kept_eq_self plain]
  · refine current (there ▸ real) (ite (fun _ => ?_) fun _ => pure)
    exact returning (numberWithUnit_clear (there ▸ real))

theorem numeric_clear_of_number (is : parser.current.kind = .number) : numeric.Clear parser := by
  obtain ⟨rest, split⟩ := Parser.ahead_eq_cons (kind_ne_eof_of_eq is nofun)
  have first : parser.ahead = [] ++ parser.current :: rest := split
  exact numeric_clear first (fun _ member => absurd member List.not_mem_nil) is

theorem tokenValue_clear {meaning : Bytes → Value} (plain : parser.current.kind ≠ .comment) :
    (tokenValue meaning).Clear parser :=
  current plain (step plain pure)

theorem markValue_clear (plain : parser.current.kind ≠ .comment) : markValue.Clear parser := by
  refine look (fun commented => Parser.startsNumeric_bare commented plain) ?_
  refine ite (fun starts => ?_) fun _ => tokenValue_clear plain
  obtain ⟨front, number, rest, split, marks, is⟩ := Parser.startsNumeric_split starts
  exact returning (numeric_clear split marks.mark is)

theorem hashValue_clear (is : parser.current.kind = .hash) : hashValue.Clear parser := by
  have plain := plain_of_kind is nofun
  refine of_commented fun commented => current plain (step plain ?_)
  have laid := commented.laid
  rw [Parser.ahead_eq_skip (kind_ne_eof_of_eq is nofun)] at laid
  refine take (fun _ => Span.glued_clear laid) ?_ pure
  rw [kept_eq_self (Span.glued_taken _)]

theorem droppedValue_clear : droppedValue.Clear parser :=
  report fun plain => step plain pure

section Calls

variable {arguments : Reading (List Value)} (inner : ∀ parser, arguments.Clear parser)
include inner

/-- A call is read at a name with its parenthesis. -/
theorem callWith_clear (plain : parser.current.kind ≠ .comment)
    (opens : parser.nextIs .openParen = true) : (callWith arguments).Clear parser := by
  have there : (parser.skip 1).current.kind ≠ .comment := by
    rw [Parser.current_skip]
    exact plain_of_kind (nextIs_iff.1 opens) nofun
  exact current plain (step plain (step there (returning (inner _))))

theorem nameValue_clear (is : parser.current.kind = .ident) :
    (nameValue arguments).Clear parser := by
  have plain := plain_of_kind is nofun
  refine look (fun commented => Parser.opensCall_bare commented is) ?_
  exact ite (fun opens => callWith_clear inner plain opens) fun _ => tokenValue_clear plain

theorem groupValue_clear (plain : parser.current.kind ≠ .comment) :
    (groupValue arguments).Clear parser :=
  step plain (returning (inner _))

theorem valueWith_clear (plain : parser.current.kind ≠ .comment) :
    (valueWith arguments).Clear parser := by
  refine current plain ?_
  split
  next is => exact map (map (numeric_clear_of_number is))
  next => exact map (markValue_clear plain)
  next => exact map (markValue_clear plain)
  next => exact map (markValue_clear plain)
  next is => exact map (nameValue_clear inner is)
  next => exact map (tokenValue_clear plain)
  next => exact map (tokenValue_clear plain)
  next => exact map (groupValue_clear inner plain)
  next is => exact map (hashValue_clear is)
  next => exact droppedValue_clear
  next => exact droppedValue_clear
  next => exact droppedValue_clear
  next => exact pure
  next => exact map (tokenValue_clear plain)

end Calls

theorem closeArguments_clear : closeArguments.Clear parser := by
  refine check (fun is => ?_) fun plain => ite (fun _ => advance plain) fun _ => ?_
  · rw [is]
    exact .report is
  · exact ite (fun _ => reportLast) fun _ => reportLast

theorem separatedValue_passes {value : Reading (Option Value)}
    (is : parser.current.kind = .comment) : (separatedValue value).Passes parser :=
  .current (.ite (fun _ => .drop) fun other => absurd (.inr is) other)

section Separated

variable {value : Reading (Option Value)}
variable (inner : ∀ parser : Parser, parser.current.kind ≠ .comment → value.Clear parser)
include inner

theorem separatedValue_clear (plain : parser.current.kind ≠ .comment) :
    (separatedValue value).Clear parser :=
  current plain (ite (fun _ => step plain pure) fun _ => returning (inner _ plain))

theorem argumentsWith_clear (advances : Advances endsArguments (separatedValue value)) :
    (argumentsWith value).Clear parser := by
  refine bind (collect advances ?_ (fun _ => separatedValue_passes) ?_ _)
    (bind closeArguments_clear pure)
  · intro token is
    simp [endsArguments, is]
  · exact fun _ plain _ => separatedValue_clear inner plain

end Separated

theorem arguments_clear (room : Nat) (parser : Parser) : (arguments room).Clear parser := by
  induction room generalizing parser with
  | zero => exact report fun _ => bind skipGroup pure
  | succ room ih =>
    exact argumentsWith_clear (fun _ plain => valueWith_clear ih plain) separatedValue_advances

theorem value_clear (plain : parser.current.kind ≠ .comment) : (value room).Clear parser :=
  valueWith_clear (arguments_clear room) plain

theorem call_clear (plain : parser.current.kind ≠ .comment)
    (opens : parser.nextIs .openParen = true) : (call room).Clear parser :=
  callWith_clear (arguments_clear room) plain opens

end Values

section Declarations

/-- The word of `! important` comes right after its mark, or the mark is a problem. -/
theorem importantFollows_clear {yes no : Reading α} (plain : parser.current.kind ≠ .comment)
    (first : parser.next.kind ≠ .comment → yes.Clear parser) (second : no.Clear parser)
    (marked : parser.current.kind = .exclamation →
      .ofToken (.misplaced "declaration value") parser.current ∈ no.found parser) :
    (do if ← importantFollows then yes else no : Reading α).Clear parser := by
  by_cases parted : parser.current.kind = .exclamation ∧ parser.next.kind = .comment ∧
      parser.bare.next.isWord Word.importantWord = true
  · obtain ⟨mark, comment, word⟩ := parted
    have other : (parser.currentIs .exclamation && parser.next.isWord Word.importantWord) =
        false := by
      simp [Token.isWord, comment]
    obtain ⟨rest, parted⟩ := Parser.parted_next plain comment (kind_of_isWord word) nofun
    apply of_blamed
    apply Blamed.look
    rw [other]
    exact fun blameless => blameless _ (marked mark) (.important parted mark word)
  · refine look (fun commented => ?_) (ite (fun follows => first ?_) fun _ => second)
    · rw [Parser.currentIs_bare plain]
      by_cases mark : parser.currentIs .exclamation = true
      · rcases Parser.next_bare commented plain with ⟨_, same, _⟩ | ⟨comment, _⟩
        · rw [same]
        · have apart : parser.bare.next.isWord Word.importantWord = false :=
            Bool.eq_false_iff.2 fun word => parted ⟨currentIs_iff.1 mark, comment, word⟩
          rw [apart]
          simp [Token.isWord, comment]
      · rw [Bool.eq_false_iff.2 mark, Bool.false_and, Bool.false_and]
    · have word := (Bool.and_eq_true_iff.1 follows).2
      exact plain_of_kind (kind_of_isWord word) nofun

theorem separatedValue_marked {arguments : Reading (List Value)}
    (mark : parser.current.kind = .exclamation) :
    .ofToken (.misplaced "declaration value") parser.current ∈
      (separatedValue (valueWith arguments)).found parser := by
  have value : .ofToken (.misplaced "declaration value") parser.current ∈
      (valueWith arguments).found parser := by
    unfold valueWith
    rw [found_current, mark]
    simp [droppedValue, found_bind]
  unfold separatedValue
  rw [found_current, if_neg (by simp [mark]), found_bind]
  exact List.mem_append_left _ value

theorem importantFollows_passes {yes no : Reading (List α)}
    (is : parser.current.kind = .comment) (second : no.Passes parser) :
    (do if ← importantFollows then yes else no : Reading (List α)).Passes parser := by
  refine .look (.ite (fun follows => ?_) fun _ => second)
  have mark : parser.currentIs .exclamation = true := (Bool.and_eq_true_iff.1 follows).1
  exact nomatch is.symm.trans (currentIs_iff.1 mark)

theorem declarationPart_passes (is : parser.current.kind = .comment) :
    (declarationPart (value room)).Passes parser :=
  importantFollows_passes is (.map (separatedValue_passes is))

theorem declarationPart_clear (plain : parser.current.kind ≠ .comment) :
    (declarationPart (value room)).Clear parser := by
  apply importantFollows_clear plain
  · intro further
    have there : (parser.skip 1).current.kind ≠ .comment := by rwa [Parser.current_skip]
    exact step plain (step there pure)
  · exact returning (separatedValue_clear (fun _ plain => value_clear plain) plain)
  · intro mark
    rw [found_bind]
    exact List.mem_append_left _ (separatedValue_marked mark)

theorem declarationBody_clear {key : Bytes} : (declarationBody room key).Clear parser := by
  refine bind (collect declarationPart_advances ?_ (fun _ => declarationPart_passes)
    (fun _ plain _ => declarationPart_clear plain) _) ?_
  · intro token is
    simp [endsDeclaration, is]
  · exact ite (fun _ => report fun _ => pure) fun _ => pure

theorem declaration_clear : (declaration room).Clear parser := by
  refine require nofun (fun is => step (plain_of_kind is nofun) ?_) fun _ => ?_
  · exact expect nofun (fun _ => declarationBody_clear) fun _ => bind skipDeclaration pure
  · exact bind skipDeclaration pure

theorem blockDeclaration_passes (is : parser.current.kind = .comment) :
    (blockDeclaration room).Passes parser :=
  .current (.ite (fun _ => .drop) fun other => absurd (.inr is) other)

theorem blockDeclaration_clear (plain : parser.current.kind ≠ .comment) :
    (blockDeclaration room).Clear parser := by
  refine current plain (ite (fun _ => step plain pure) fun _ => ite (fun _ => ?_) fun _ => ?_)
  · exact returning declaration_clear
  · exact report fun _ => bind skipDeclaration pure

theorem closeBlock_clear {place : String} : (closeBlock place).Clear parser :=
  checkIs nofun .report fun plain => ite (fun _ => advance plain) fun _ => reportLast

section Blocks

variable {place : String}

theorem blockBody_clear {member : Reading (List α)} (advances : Advances endsBlock member)
    (comments : ∀ parser : Parser, parser.current.kind = .comment → member.Passes parser)
    (members : ∀ parser : Parser, parser.current.kind ≠ .comment →
      endsBlock parser.current = false → member.Clear parser) :
    (blockBody place member).Clear parser := by
  refine bind (collect advances ?_ comments members _) (bind closeBlock_clear pure)
  intro token is
  simp [endsBlock, is]

theorem blockWith_clear {body : Reading α} (inner : ∀ parser, body.Clear parser) :
    (blockWith place body).Clear parser :=
  expect nofun (fun _ => returning (inner _)) fun _ => bind skipBlock pure

theorem declarationBlock_clear : (declarationBlock room place).Clear parser :=
  blockWith_clear fun _ => blockBody_clear blockDeclaration_advances
    (fun _ => blockDeclaration_passes) fun _ plain _ => blockDeclaration_clear plain

end Blocks

end Declarations

section Conditions

theorem featureValue_clear {stop : Token → Bool}
    (passes : ∀ token, token.kind = .comment → stop token = false) :
    (featureValue stop).Clear parser :=
  take (fun _ => Span.inside_clear passes 0) (by rw [verbatim_kept]) pure

theorem mediaFeatureValue_clear (plain : parser.current.kind ≠ .comment) :
    mediaFeatureValue.Clear parser := by
  have value {parser : Parser} : (featureValue fun _ => false).Clear parser :=
    featureValue_clear fun _ _ => rfl
  refine accept plain (bind value (reportIf pure)) ?_
  exact currentIs plain (ite (fun _ => pure) fun _ => returning value)

theorem closeFeature_clear : closeFeature.Clear parser :=
  expect nofun (fun _ => pure) fun _ => skipGroup

theorem mediaFeature_clear (plain : parser.current.kind ≠ .comment) :
    mediaFeature.Clear parser := by
  refine step plain (pastComments fun _ plain => require nofun (fun _ => step plain ?_) fun _ => ?_)
  · refine pastComments fun _ plain => bind (mediaFeatureValue_clear plain) ?_
    exact bind closeFeature_clear pure
  · exact bind skipGroup pure

theorem conjunction_clear (plain : parser.current.kind ≠ .comment) : conjunction.Clear parser :=
  step plain (pastComments fun _ plain => currentIs plain reportIfLast)

section Conjuncts

variable {condition : Reading (List α)}

/-- Comments are skipped after a condition and after an `and`. -/
theorem conjunct_plain (parser : Parser) :
    (conjunct condition parser).2.current.kind ≠ .comment := by
  change ((if parser.currentIs .openParen = true then _ else _ : Reading (List α))
    parser).2.current.kind ≠ .comment
  split
  next => exact current_skipComments _
  next =>
    change (Reading.reportIf _ _ _).2.current.kind ≠ .comment
    rw [current_reportIf]
    exact current_skipComments _

theorem conjuncts_clear
    (progress : ∀ parser : Parser, parser.current.kind = .openParen → condition.Progresses parser)
    (inner : ∀ parser : Parser, parser.current.kind ≠ .comment → condition.Clear parser) :
    (conjuncts condition).Clear parser := by
  refine pastComments fun _ plain => collect_plain (conjunct_advances progress) ?_
    (fun parser _ => conjunct_plain parser) plain
  intro parser plain _
  refine currentIs plain (ite (fun _ => bind (inner parser plain) ?_) fun _ => ?_)
  · exact pastComments fun _ _ => pure
  · exact bind (conjunction_clear plain) pure

end Conjuncts

theorem mediaModifier_clear (plain : parser.current.kind ≠ .comment) :
    mediaModifier.Clear parser :=
  acceptWord plain pure (acceptWord plain pure pure)

theorem mediaType_clear (plain : parser.current.kind ≠ .comment) : mediaType.Clear parser :=
  current plain (ite (fun _ => step plain pure) fun _ => pure)

theorem dropRest_clear {stop : Token → Bool} {place : String}
    (passes : ∀ token, token.kind = .comment → stop token = false) :
    (dropRest stop place).Clear parser := by
  refine check (fun is => ?_) fun _ => ite (fun _ => pure) fun _ => report fun _ => ?_
  · rw [if_neg (Bool.eq_false_iff.1 (passes _ is))]
    exact .bind_left (.report is)
  · exact skip fun _ => Span.before_clear_of_passes passes

theorem mediaExpression_clear : mediaExpression.Clear parser := by
  refine pastComments fun _ plain => bind (mediaModifier_clear plain) ?_
  refine pastComments fun _ plain => bind (mediaType_clear plain) (bind ?_ ?_)
  · exact conjuncts_clear (fun _ opening => .map (mediaFeature_progresses opening)) fun _ plain =>
      map (mediaFeature_clear plain)
  · refine bind (dropRest_clear fun token is => ?_) pure
    simp [endsExpression, Token.isStructural, is]

theorem mediaExpression_plain (parser : Parser) :
    (mediaExpression parser).2.current.kind ≠ .comment := by
  intro is
  have stopped : endsExpression (mediaExpression parser).2.current = true :=
    dropRest_stops endsExpression_of_endOfInput
  simp [endsExpression, Token.isStructural, is] at stopped

theorem nextExpression_clear (plain : parser.current.kind ≠ .comment) :
    nextExpression.Clear parser :=
  step plain (pastComments fun _ _ => returning mediaExpression_clear)

theorem mediaQuery_clear : mediaQuery.Clear parser := by
  refine pastComments fun _ plain => current plain (ite (fun _ => pure) fun _ => ?_)
  refine bind mediaExpression_clear (returning (collect_plain nextExpression_advances
    (fun _ plain _ => nextExpression_clear plain) (fun _ _ => ?_) (mediaExpression_plain _)))
  exact mediaExpression_plain _

theorem supportsValue_passes (is : parser.current.kind = .comment) :
    (supportsValue room).Passes parser :=
  importantFollows_passes is (separatedValue_passes is)

theorem supportsValue_clear (plain : parser.current.kind ≠ .comment) :
    (supportsValue room).Clear parser := by
  refine importantFollows_clear plain (fun _ => returning (tokenValue_clear plain)) ?_
    separatedValue_marked
  exact separatedValue_clear (fun _ plain => value_clear plain) plain

theorem supportsDeclaration_clear (plain : parser.current.kind ≠ .comment)
    (further : parser.next.kind ≠ .comment) : (supportsDeclaration room).Clear parser := by
  have there : (parser.skip 1).current.kind ≠ .comment := by rwa [Parser.current_skip]
  refine current plain (step plain (step there (bind ?_ (reportIf pure))))
  refine collect supportsValue_advances ?_ (fun _ => supportsValue_passes)
    (fun _ plain _ => supportsValue_clear plain) _
  intro token is
  simp [endsSupportsDeclaration, Token.isStructural, is]

theorem supportsCall_clear (plain : parser.current.kind ≠ .comment)
    (further : parser.next.kind ≠ .comment) : (supportsCall room).Clear parser := by
  have there : (parser.skip 1).current.kind ≠ .comment := by rwa [Parser.current_skip]
  exact current plain (step plain (step there (returning (arguments_clear room _))))

section Groups

variable {group : Reading (Option SupportsCondition)}
variable (inner : ∀ parser : Parser, parser.current.kind ≠ .comment → group.Clear parser)
include inner

theorem supportsNegation_clear (plain : parser.current.kind ≠ .comment) :
    (supportsNegation group).Clear parser := by
  refine step plain (pastComments fun _ plain => currentIs plain (ite (fun _ => ?_) ?_))
  · exact returning (inner _ plain)
  · exact fun _ => report fun _ => pure

omit inner in
theorem dropSupportsToken_clear : dropSupportsToken.Clear parser :=
  report fun plain => step plain pure

/-- A comment after a name hides what the name starts, and is a problem. -/
theorem supportsName_clear (is : parser.current.kind = .ident) :
    (supportsName room group parser.current).Clear parser := by
  have plain := plain_of_kind is nofun
  have parenthesis : (do
      if ← nextIs .openParen then return [← supportsCall room] else dropSupportsToken :
        Reading (List SupportsCondition)).Clear parser := by
    refine look (fun commented => Parser.opensCall_bare commented is) (ite (fun opens => ?_) ?_)
    · exact returning (supportsCall_clear plain (plain_of_kind (nextIs_iff.1 opens) nofun))
    · exact fun _ => dropSupportsToken_clear
  refine ite (fun _ => returning (step plain pure)) fun _ => ite (fun _ => ?_) fun _ => ?_
  · exact returning (supportsNegation_clear inner plain)
  · by_cases parted : parser.next.kind = .comment ∧ parser.bare.nextIs .colon = true
    · obtain ⟨comment, colon⟩ := parted
      have follows := nextIs_iff.1 colon
      obtain ⟨rest, parted⟩ := Parser.parted_next plain comment follows nofun
      have blamed : .ofToken (.misplaced "supports condition") parser.current ∈
          dropSupportsToken.found parser := List.mem_cons_self
      apply of_blamed
      apply Blamed.look
      rw [show parser.nextIs .colon = false by simp [Parser.nextIs, comment]]
      apply Blamed.look
      rw [show parser.nextIs .openParen = false by simp [Parser.nextIs, comment]]
      exact fun blameless => blameless _ blamed (.declaration parted is follows)
    · refine look (fun commented => ?_) (ite (fun colon => ?_) fun _ => parenthesis)
      · by_cases comment : parser.next.kind = .comment
        · rw [Bool.eq_false_iff.2 fun colon => parted ⟨comment, colon⟩]
          simp [Parser.nextIs, comment]
        · exact Parser.nextIs_bare commented plain comment
      · exact returning (supportsDeclaration_clear plain (plain_of_kind (nextIs_iff.1 colon) nofun))

omit inner in
theorem supportsPart_passes (is : parser.current.kind = .comment) :
    (supportsPart room group).Passes parser := by
  apply Passes.current
  rw [is]
  exact .drop

theorem supportsPart_clear (plain : parser.current.kind ≠ .comment) :
    (supportsPart room group).Clear parser := by
  refine current plain ?_
  split
  next is => exact absurd is plain
  next => exact returning (inner _ plain)
  next is => exact supportsName_clear inner is
  next => exact dropSupportsToken_clear

theorem supportsSequence_clear {terminator : Kind} (other : terminator ≠ .comment)
    (advances : Advances (endsSupports terminator) (supportsPart room group)) :
    (supportsSequence room group terminator).Clear parser := by
  refine collect advances (fun token is => ?_) (fun _ => supportsPart_passes)
    (fun _ plain _ => supportsPart_clear inner plain) _
  simp [endsSupports, Token.isStructural, is, other.symm]

end Groups

theorem supportsGroup_clear (room : Nat) (parser : Parser)
    (plain : parser.current.kind ≠ .comment) : (supportsGroup room).Clear parser := by
  induction room generalizing parser with
  | zero => exact report fun plain => step plain (bind skipGroup pure)
  | succ room ih =>
    refine step plain (bind ?_ (reportIf (expect nofun (fun _ => pure) fun _ => pure)))
    exact supportsSequence_clear ih nofun (supportsPart_advances .closeParen)

theorem supportsCondition_clear {terminator : Kind} (other : terminator ≠ .comment) :
    (supportsCondition room terminator).Clear parser :=
  map (supportsSequence_clear (supportsGroup_clear room) other (supportsPart_advances terminator))

theorem containerValue_clear : containerValue.Clear parser :=
  featureValue_clear fun token is => by simp [isAnd, Token.isWord, is]

theorem containerFeatureValue_clear (plain : parser.current.kind ≠ .comment) :
    containerFeatureValue.Clear parser := by
  refine accept plain (returning containerValue_clear) (current plain (ite (fun _ => pure) ?_))
  exact fun _ => returning containerValue_clear

theorem containerFeature_clear {name : Token} (plain : parser.current.kind ≠ .comment) :
    (containerFeature name).Clear parser :=
  step plain (pastComments fun _ plain => returning (containerFeatureValue_clear plain))

theorem containerPart_clear {group : Reading ContainerCondition}
    (inner : ∀ parser : Parser, parser.current.kind ≠ .comment → group.Clear parser)
    (plain : parser.current.kind ≠ .comment) : (containerPart group).Clear parser := by
  refine bind (current plain ?_) (pastComments fun _ _ => pure)
  split
  next => exact ite (fun _ => step plain pure) fun _ => containerFeature_clear plain
  next => exact map (inner _ plain)
  next => exact report fun plain => step plain pure

theorem containerCondition_clear (room : Nat) (parser : Parser)
    (plain : parser.current.kind ≠ .comment) : (containerCondition room).Clear parser := by
  induction room generalizing parser with
  | zero => exact report fun plain => step plain (bind skipGroup pure)
  | succ room ih =>
    refine step plain (pastComments fun _ plain => bind ?_ ?_)
    · exact collect_plain containerPart_advances (fun _ plain _ => containerPart_clear ih plain)
        (fun _ _ => current_skipComments _) plain
    · exact expect nofun (fun _ => pure) fun _ => pure

theorem containerLabel_clear (plain : parser.current.kind ≠ .comment) :
    containerLabel.Clear parser := by
  refine current plain (look (fun commented => Parser.isContainerName_bare commented plain) ?_)
  exact ite (fun _ => step plain pure) fun _ => pure

theorem containerQuery_clear : (containerQuery room).Clear parser := by
  refine bind (conjuncts_clear (fun _ opening => ?_) fun _ plain => ?_) ?_
  · exact .bind_left (containerCondition_progresses opening)
  · exact returning (containerCondition_clear room _ plain)
  · refine bind (dropRest_clear fun token is => ?_) pure
    simp [Token.isStructural, is]

end Conditions

end CssSyntax.Grammar

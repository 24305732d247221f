import CssSyntax.Proofs.Relocation.Rule

/-! Rules that end with their own brace or semicolon. A rule that is read without a problem takes
the token that seals it, so what is added after the rule does not matter, even right behind it. -/

namespace CssSyntax

open Reading

namespace Relocation

variable {α β : Type} {relocation : Relocation} {parser : Parser}

/-- The last token that the reading takes seals. -/
def EndsSealed (reading : Reading α) (parser : Parser) : Prop :=
  ∃ front last, reading.taken parser = front ++ [last] ∧ last.seals = true

theorem EndsSealed.covers {reading : Reading α} (sealed : EndsSealed reading parser) :
    relocation.Covers parser := by
  obtain ⟨front, last, taken, seals⟩ := sealed
  refine .inr ⟨last, ?_, seals⟩
  rw [← taken_append reading parser, taken]
  simp

theorem EndsSealed.bind {reading : Reading α} {next : α → Reading β}
    (sealed : EndsSealed (next (reading parser).1) (reading parser).2) :
    EndsSealed (reading >>= next) parser := by
  obtain ⟨front, last, taken, seals⟩ := sealed
  refine ⟨reading.taken parser ++ front, last, ?_, seals⟩
  rw [taken_bind, taken, List.append_assoc]

/-- Without a problem the readings agree, and the left one takes a token that seals at last. -/
def Seals (relocation : Relocation) (left right : Reading α) (parser : Parser) : Prop :=
  relocation.Keeps parser.ahead → left.found parser = [] →
    EndsSealed left parser ∧ relocation.Agree left right parser

abbrev Sealing (relocation : Relocation) (reading : Reading α) (parser : Parser) : Prop :=
  relocation.Seals reading reading parser

namespace Seals

variable {left right : Reading α} {next other : α → Reading β}

/-- The last part of a reading seals all of it. -/
theorem bind (first : relocation.Links left right parser)
    (second : relocation.Seals (next (left parser).1) (other (left parser).1) (left parser).2) :
    relocation.Seals (left >>= next) (right >>= other) parser := by
  intro keeps clean
  rw [found_bind] at clean
  obtain ⟨sealed, agree⟩ := second keeps.later (List.append_eq_nil_iff.1 clean).2
  exact ⟨sealed.bind, (first keeps sealed.covers).bind agree⟩

theorem map {change : α → β} (first : relocation.Seals left right parser) :
    relocation.Seals (change <$> left) (change <$> right) parser :=
  fun keeps clean => (first keeps clean).imp_right Agree.map

theorem returning {change : α → β} (first : relocation.Seals left right parser) :
    relocation.Seals (left >>= fun found => Pure.pure (change found))
      (right >>= fun found => Pure.pure (change found)) parser :=
  map first

theorem ite {condition : Prop} [Decidable condition] {yes no yes' no' : Reading α}
    (first : condition → relocation.Seals yes yes' parser)
    (second : ¬condition → relocation.Seals no no' parser) :
    relocation.Seals (if condition then yes else no) (if condition then yes' else no') parser := by
  split
  next holds => exact first holds
  next fails => exact second fails

theorem look {seen : Parser → α} {blind}
    (same : relocation.Keeps parser.ahead → relocation.Covers parser →
      seen (relocation.parser parser) = seen parser)
    (far : relocation.Seals (next (seen parser)) (other (seen parser)) parser) :
    relocation.Seals (peek seen blind >>= next) (peek seen blind >>= other) parser := by
  intro keeps clean
  rw [found_bind] at clean
  obtain ⟨sealed, agree⟩ := far keeps clean
  exact ⟨sealed.bind, .look (same keeps sealed.covers) agree⟩

theorem currentToken {next other : Token → Reading β}
    (far : relocation.Seals (next parser.current) (other (relocation.token parser.current))
      parser) :
    relocation.Seals (Reading.current >>= next) (Reading.current >>= other) parser := by
  intro keeps clean
  rw [found_bind] at clean
  obtain ⟨sealed, agree⟩ := far keeps clean
  exact ⟨sealed.bind, .look (current_eq sealed.covers) agree⟩

theorem current {next : Token → Reading β} (placeless : Placeless next)
    (far : relocation.Sealing (next parser.current) parser) :
    relocation.Sealing (Reading.current >>= next) parser := by
  refine currentToken ?_
  have same : next (relocation.token parser.current) = next parser.current :=
    placeless.token_eq _
  rw [same]
  exact far

theorem currentIs {kind : Kind} {next other : Bool → Reading β}
    (far : relocation.Seals (next (parser.currentIs kind)) (other (parser.currentIs kind)) parser) :
    relocation.Seals (Reading.currentIs kind >>= next) (Reading.currentIs kind >>= other) parser :=
  look (fun _ covers => currentIs_eq covers kind) far

theorem take {span other : List Token → Nat} {next following : List Token → Reading β}
    (settles : Span.Settles other)
    (same : relocation.Keeps parser.ahead →
      other (parser.ahead.map relocation.token) = span parser.ahead)
    (far : relocation.Keeps (parser.ahead.take (span parser.ahead)) →
      relocation.Seals (next (parser.ahead.take (span parser.ahead)))
        (following ((parser.ahead.take (span parser.ahead)).map relocation.token))
        (parser.skip (span parser.ahead))) :
    relocation.Seals (Reading.take span >>= next) (Reading.take other >>= following) parser := by
  intro keeps clean
  rw [found_bind] at clean
  have taken := keeps.sublist (List.take_sublist (span parser.ahead) parser.ahead)
  obtain ⟨sealed, agree⟩ := far taken (keeps.sublist (List.drop_sublist _ _)) clean
  refine ⟨sealed.bind, ?_⟩
  exact .take (span_eq settles (same keeps) sealed.covers) (length_of_covers sealed.covers) agree

/-- Nothing is said of a reading that finds a problem. -/
theorem report {problem : Problem} {next other : Unit → Reading β} :
    relocation.Seals (Reading.report problem >>= next) (Reading.report problem >>= other)
      parser := by
  intro _ clean
  rw [found_bind] at clean
  exact absurd (List.append_eq_nil_iff.1 clean).1 (List.cons_ne_nil _ _)

theorem reportAt {problem : Problem} {token moved : Token} {next other : Unit → Reading β} :
    relocation.Seals (Reading.reportAt problem token >>= next)
      (Reading.reportAt problem moved >>= other) parser := by
  intro _ clean
  rw [found_bind] at clean
  exact absurd (List.append_eq_nil_iff.1 clean).1 (List.cons_ne_nil _ _)

theorem reportLast {problem : Problem} :
    relocation.Sealing (Reading.report problem) parser :=
  fun _ clean => absurd clean (List.cons_ne_nil _ _)

/-- A token that is there and seals. -/
theorem advance (seals : parser.current.seals = true) :
    relocation.Sealing Reading.advance parser := by
  intro _ _
  have notEnd : parser.current.kind ≠ .eof := by
    intro is
    rw [Token.seals_of_kind is rfl] at seals
    exact Bool.false_ne_true seals
  obtain ⟨rest, split⟩ := Parser.ahead_eq_cons notEnd
  constructor
  · exact ⟨[], parser.current, taken_advance notEnd, seals⟩
  · refine .skip rfl (.inr ?_)
    rw [split]
    exact Nat.succ_le_succ (Nat.zero_le _)

theorem expectSemicolon {problem : Problem} {next : Bool → β} :
    relocation.Sealing (Reading.expect .semicolon problem >>= fun found => Pure.pure (next found))
      parser := by
  rw [expect_bind]
  refine current rfl (ite (fun semicolon => returning (advance ?_)) fun _ => report)
  simp [Token.seals, semicolon]

end Seals

end Relocation

namespace Grammar

open Relocation Seals

variable {relocation : Relocation} {parser : Parser} {room : Nat}

section Blocks

variable {α : Type} {place : String}

theorem closeBlock_sealing : relocation.Sealing (closeBlock place) parser := by
  refine currentIs (ite (fun closes => advance ?_) fun _ => reportLast)
  simp [Token.seals, currentIs_iff.1 closes]

theorem blockBody_sealing {member : Reading (List α)} (advances : Advances endsBlock member)
    (members : ∀ parser, endsBlock parser.current = false → relocation.Carries member parser) :
    relocation.Sealing (blockBody place member) parser :=
  bind (.collect advances rfl members _) (returning closeBlock_sealing)

theorem blockWith_sealing {body : Reading α} (inner : ∀ parser, relocation.Sealing body parser) :
    relocation.Sealing (blockWith place body) parser := by
  unfold blockWith
  rw [expect_bind]
  exact current rfl (ite (fun _ => bind .advance (returning (inner _))) fun _ => report)

end Blocks

section Statements

theorem importRule_sealing : relocation.Sealing (importRule room) parser := by
  refine bind url_carries ?_
  split
  next => exact report
  next =>
    refine bind .skipComments (bind (.iterate separatedClause_advances rfl ?_ _ _) expectSemicolon)
    exact fun _ _ going => .bind (importClause_carries going) (.bind .skipComments .pure)

theorem charset_sealing : relocation.Sealing charset parser :=
  current rfl (ite (fun _ => bind .advance expectSemicolon) fun _ => report)

theorem namespaceRule_sealing : relocation.Sealing (namespaceRule room) parser := by
  refine bind namespaceLabel_carries (bind url_carries ?_)
  split
  next => exact report
  next => exact bind .skipComments expectSemicolon

end Statements

section DeclarationRules

theorem declarationBlock_sealing {place : String} :
    relocation.Sealing (declarationBlock room place) parser :=
  blockWith_sealing fun _ => blockBody_sealing blockDeclaration_advances fun _ _ =>
    blockDeclaration_carries

theorem counterStyle_sealing : relocation.Sealing (counterStyle room) parser := by
  refine current rfl (ite (fun _ => ?_) fun _ => report)
  exact bind .advance (bind .skipComments (returning declarationBlock_sealing))

theorem colorProfile_sealing : relocation.Sealing (colorProfile room) parser := by
  refine current rfl ?_
  split
  next => exact bind .advance (bind .skipComments (returning declarationBlock_sealing))
  next => exact report

theorem page_sealing : relocation.Sealing (page room) parser := by
  refine take (Span.before_settles _)
    (fun _ => Span.before_map relocation.token (fun _ => rfl) _) fun keeps => ?_
  rw [pageSelector_map keeps]
  exact returning declarationBlock_sealing

theorem keyframes_sealing {webkit : Bool} : relocation.Sealing (keyframes room webkit) parser := by
  refine current rfl ?_
  split
  next =>
    refine bind .advance (bind .skipComments (blockWith_sealing fun _ => map ?_))
    exact blockBody_sealing keyframesMember_advances fun _ _ => keyframesMember_carries
  next => exact report

theorem fontFeatureValues_sealing : relocation.Sealing (fontFeatureValues room) parser := by
  refine bind (.collect family_advances rfl (fun _ _ => family_carries) _) ?_
  refine currentIs (ite (fun _ => ?_) fun _ => report)
  refine bind .reportIf (bind .advance (returning ?_))
  exact blockBody_sealing featureMember_advances fun _ _ => featureMember_carries

end DeclarationRules

section Rules

theorem ruleSetWith_sealing {block : Reading (Option (List Node))}
    (inner : ∀ parser, relocation.Sealing block parser) :
    relocation.Sealing (ruleSetWith block) parser := by
  refine bind (.collect selectorAtom_advances rfl (fun _ _ => selectorAtom_carries) _) ?_
  exact currentIs (ite (fun _ => returning (inner _)) fun _ => report)

theorem atRuleWith_sealing {body : Bytes → AtRule → Reading (Option Node)}
    (inner : ∀ name rule parser, relocation.Sealing (body name rule) parser)
    (mark : parser.current.kind = .atSign) : relocation.Sealing (atRuleWith body) parser := by
  refine look (fun keeps covers => namesAtRule_eq keeps covers (Token.seals_of_kind mark rfl))
    (bind .advance (ite (fun _ => ?_) fun _ => report))
  refine currentToken (look (fun _ _ => rfl) ?_)
  split
  next => exact reportAt
  next => exact bind .advance (bind .skipComments (inner _ _ _))

theorem nestedRules_sealing {place : String} :
    relocation.Sealing (nestedRules (ruleSet room) (atRule room) place) parser :=
  blockBody_sealing (ruleMember_advances place) fun _ _ => ruleMember_carries (rulesCarry _ _)

theorem media_sealing : relocation.Sealing (media (ruleSet room) (atRule room)) parser :=
  bind mediaQuery_carries (blockWith_sealing fun _ => map nestedRules_sealing)

theorem supportsRule_sealing :
    relocation.Sealing (supportsRule room (ruleSet room) (atRule room)) parser :=
  bind (supportsCondition_carries .openBrace) (blockWith_sealing fun _ => map nestedRules_sealing)

theorem container_sealing :
    relocation.Sealing (container room (ruleSet room) (atRule room)) parser := by
  refine bind containerLabel_carries ?_
  refine bind containerQuery_carries ?_
  refine blockWith_sealing fun _ => ?_
  refine map (blockBody_sealing (styleMember_advances fun _ going => ?_) fun _ _ => ?_)
  · exact dropToken_progresses (kind_ne_of_endsBlock going).2
  · exact styleMember_carries (rulesCarry _ _) fun _ => dropToken_carries

theorem layer_sealing : relocation.Sealing (layer (ruleSet room) (atRule room)) parser := by
  refine bind (.collect layerPart_advances rfl (fun _ _ => layerPart_carries) _) ?_
  refine currentIs (ite (fun semicolon => ?_) fun _ => ?_)
  · refine bind .reportIf (returning (advance ?_))
    rw [current_reportIf]
    simp [Token.seals, currentIs_iff.1 semicolon]
  · refine currentIs (ite (fun _ => ?_) fun _ => report)
    exact bind .advance (returning nestedRules_sealing)

theorem atRuleBody_sealing (name : Bytes) (rule : AtRule) (parser : Parser) :
    relocation.Sealing (atRuleBody room (ruleSet room) (atRule room) name rule) parser := by
  cases rule with
  | media => exact media_sealing
  | keyframes => exact keyframes_sealing
  | webkitKeyframes => exact keyframes_sealing
  | importRule => exact importRule_sealing
  | charset => exact charset_sealing
  | fontFace => exact returning declarationBlock_sealing
  | fontFeatureValues => exact fontFeatureValues_sealing
  | colorProfile => exact colorProfile_sealing
  | counterStyle => exact counterStyle_sealing
  | container => exact container_sealing
  | supports => exact supportsRule_sealing
  | layer => exact layer_sealing
  | page => exact page_sealing
  | namespaceRule => exact namespaceRule_sealing
  | viewport => exact returning declarationBlock_sealing

theorem ruleSet_sealing : relocation.Sealing (ruleSet room) parser := by
  cases room with
  | zero => exact ruleSetWith_sealing fun _ => report
  | succ room =>
    refine ruleSetWith_sealing fun _ => bind .advance (returning ?_)
    exact blockBody_sealing (styleMember_advances fun _ => brokenDeclaration_progresses) fun _ _ =>
      styleMember_carries (rulesCarry _ _) fun _ => brokenDeclaration_carries

theorem atRule_sealing (mark : parser.current.kind = .atSign) :
    relocation.Sealing (atRule room) parser := by
  cases room with
  | zero => exact report
  | succ room => exact atRuleWith_sealing atRuleBody_sealing mark

end Rules

end Grammar

end CssSyntax

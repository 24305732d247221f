import CssSyntax.Proofs.Driver.Prelude

/-! Rules are driven: selectors, blocks and at-rules, one level deeper for each that is open. -/

namespace CssSyntax

open Driver (Seen)
open Reading.Driven

namespace Grammar

variable {depth : Nat} {parser : Parser}

section Selectors

/-- The `)` after the argument of a pseudo class, given the tokens before it. -/
def closeArgument (taken : List Token) : Reading Bytes := do
  let closing ← Reading.current
  if ← Reading.expect .closeParen (.missingAfter "')'" "pseudo argument") then
    return verbatim (taken ++ [closing])
  else return verbatim taken

/-- The argument of a pseudo class as one loop, from its `(` on. -/
def countedArgument : Reading Bytes := do
  closeArgument (← Reading.take (Sweep.argument.span 0))

/-- From a `(` on, one loop takes the parenthesis and what is in it. -/
theorem pseudoArgument_eq (opens : parser.current.kind = .openParen) :
    pseudoArgument parser = countedArgument parser := by
  obtain ⟨settings, ahead, finish, errors⟩ := parser
  cases ahead with
  | nil => exact nomatch opens
  | cons opening rest =>
    change opening.kind = .openParen at opens
    have span : Sweep.argument.span 0 (opening :: rest) =
        Span.inside (fun _ => false) 0 rest + 1 := by
      rw [Sweep.argument_span opens]
      exact congrArg (· + 1) (Sweep.argumentSpan_succ 0 rest)
    change _ = closeArgument (List.take (Sweep.argument.span 0 (opening :: rest)) (opening :: rest))
      ⟨settings, List.drop (Sweep.argument.span 0 (opening :: rest)) (opening :: rest), finish,
        errors⟩
    rw [span]
    rfl

theorem optionalArgument_eq :
    optionalArgument = (do
      if ← Reading.currentIs .openParen then countedArgument else return []) := by
  apply Reading.ext
  funext parser
  change (if parser.currentIs .openParen = true then pseudoArgument else _ : Reading Bytes) parser =
    (if parser.currentIs .openParen = true then countedArgument else _ : Reading Bytes) parser
  split
  next opens => exact pseudoArgument_eq (Reading.currentIs_iff.1 opens)
  next => rfl

/-- The loop over an argument is started at a `(` only, so it never counts below zero. -/
theorem countedArgument_driven (opens : parser.current.kind = .openParen) :
    countedArgument.Driven depth parser := by
  have loop : (Reading.take (Sweep.argument.span 0)).Driven depth parser := by
    intro driver shows _
    obtain ⟨after, passes, shown⟩ := Sweep.Passes.runs_argument opens shows
    exact ⟨after, .take passes, shown⟩
  exact bind loop (current (bind expect (ite (fun _ => pure) fun _ => pure)))

theorem optionalArgument_driven : optionalArgument.Driven depth parser := by
  rw [optionalArgument_eq]
  refine currentIs (ite (fun opens => ?_) fun _ => pure)
  exact countedArgument_driven (Reading.currentIs_iff.1 opens)

theorem markedName_driven {mark : Token} {kind : SelectorKind} {place : String} :
    (markedName mark kind place).Driven depth parser :=
  advance (current (ite (fun _ => advance pure) fun _ => bind report pure))

theorem attributeAtom_driven : attributeAtom.Driven depth parser :=
  advance (bind (take (.before endsAttribute fun _ => rfl) 0 nofun) (bind expect pure))

theorem pseudoAtom_driven {colons : Token} : (pseudoAtom colons).Driven depth parser := by
  refine advance (current (ite (fun _ => advance ?_) fun _ => bind report pure))
  exact bind optionalArgument_driven pure

theorem tokenAtom_driven {kind : SelectorKind} {token : Token} :
    (tokenAtom kind token).Driven depth parser :=
  advance pure

theorem selectorAtom_driven : selectorAtom.Driven depth parser := by
  apply current
  split
  next => exact advance pure
  next => exact tokenAtom_driven
  next => exact tokenAtom_driven
  next => exact markedName_driven
  next => exact markedName_driven
  next => exact tokenAtom_driven
  next => exact returning attributeAtom_driven
  next => exact pseudoAtom_driven
  next => exact pseudoAtom_driven
  next => exact tokenAtom_driven
  next => exact tokenAtom_driven
  next => exact tokenAtom_driven
  next => exact tokenAtom_driven
  next => exact bind report (advance pure)

theorem ruleSetWith_driven {block : Reading (Option (List Node))}
    (blocks : ∀ parser, block.Driven depth parser) : (ruleSetWith block).Driven depth parser := by
  refine bind (collect selectorAtom_advances fun _ => selectorAtom_driven) (currentIs ?_)
  exact ite (fun _ => returning (blocks _)) fun _ => bind report pure

end Selectors

section Rules

theorem comment_driven : comment.Driven depth parser :=
  current (advance (look (.setting (·.keepComments)) pure))

theorem dropToken_driven {place : String} : (dropToken place).Driven depth parser :=
  bind report (advance pure)

theorem layerPart_driven : layerPart.Driven depth parser := by
  apply current
  split
  next => exact advance pure
  next => exact advance pure
  next => exact current (advance (returning (take .layers 0 nofun)))
  next => exact bind report (advance pure)

theorem namesAtRule_seen : Seen namesAtRule :=
  .near (fun _ next _ touch _ => next.kind == .ident && touch) fun _ => rfl

theorem atRuleWith_driven {body : Bytes → AtRule → Reading (Option Node)}
    (bodies : ∀ name rule parser, (body name rule).Driven depth parser) :
    (atRuleWith body).Driven depth parser := by
  refine look namesAtRule_seen (advance (ite (fun _ => current ?_) fun _ => ?_))
  · refine look (.setting fun settings => settings.registry.lookup _) ?_
    split
    next => exact bind reportAt (advance (bind skipAtRule pure))
    next => exact advance (bind skipComments (bodies _ _ _))
  · exact bind report (bind skipAtRule pure)

/-- What is needed of the rules inside a block. -/
structure DrivesRules (depth : Nat) : Prop where
  ruleSet : ∀ parser, (ruleSet (roomAt depth)).Driven depth parser
  atRule : ∀ parser, (atRule (roomAt depth)).Driven depth parser

section Inside

variable (rules : DrivesRules depth)
include rules

theorem styleMember_driven {place : String} {other : Reading (List Node)}
    (others : ∀ parser, other.Driven depth parser) :
    (styleMember (roomAt depth) (ruleSet (roomAt depth)) (atRule (roomAt depth)) place
      other).Driven depth parser := by
  apply current
  split
  next => exact advance pure
  next => exact map comment_driven
  next =>
    refine look .block (ite (fun _ => map (rules.ruleSet _)) fun _ => ?_)
    exact returning declaration_driven
  next => exact bind report (bind (rules.atRule _) pure)
  next => exact ite (fun _ => map (rules.ruleSet _)) fun _ => others _

theorem ruleSetBody_driven :
    (ruleSetBody (roomAt depth) (ruleSet (roomAt depth)) (atRule (roomAt depth))).Driven depth
      parser := by
  have broken (parser : Parser) : brokenDeclaration.Driven depth parser :=
    bind report (bind skipDeclaration pure)
  refine blockBody_driven (styleMember_advances fun _ going => ?_) fun _ => ?_
  · exact brokenDeclaration_progresses going
  · exact styleMember_driven rules broken

theorem containerBody_driven :
    (containerBody (roomAt depth) (ruleSet (roomAt depth)) (atRule (roomAt depth))).Driven depth
      parser := by
  refine blockBody_driven (styleMember_advances fun _ going => ?_) fun _ => ?_
  · exact dropToken_progresses (kind_ne_of_endsBlock going).2
  · exact styleMember_driven rules fun _ => dropToken_driven

theorem nestedRules_driven {place : String} :
    (nestedRules (ruleSet (roomAt depth)) (atRule (roomAt depth)) place).Driven depth parser := by
  refine blockBody_driven (ruleMember_advances place) fun _ => current ?_
  split
  next => exact advance pure
  next => exact map comment_driven
  next => exact map (rules.atRule _)
  next => exact ite (fun _ => map (rules.ruleSet _)) fun _ => dropToken_driven

theorem media_driven :
    (media (ruleSet (roomAt depth)) (atRule (roomAt depth))).Driven depth parser :=
  bind mediaQuery_driven (blockWith_driven fun _ => map (nestedRules_driven rules))

theorem supportsRule_driven :
    (supportsRule (roomAt depth) (ruleSet (roomAt depth)) (atRule (roomAt depth))).Driven depth
      parser :=
  bind supportsCondition_driven (blockWith_driven fun _ => map (nestedRules_driven rules))

theorem container_driven :
    (container (roomAt depth) (ruleSet (roomAt depth)) (atRule (roomAt depth))).Driven depth
      parser :=
  bind containerLabel_driven (bind containerQuery_driven
    (blockWith_driven fun _ => map (containerBody_driven rules)))

theorem layer_driven :
    (layer (ruleSet (roomAt depth)) (atRule (roomAt depth))).Driven depth parser := by
  refine bind (collect layerPart_advances fun _ => layerPart_driven) (currentIs ?_)
  refine ite (fun _ => bind reportIf (advance pure)) fun _ =>
    currentIs (ite (fun _ => ?_) fun _ => ?_)
  · exact advance (returning (nestedRules_driven rules))
  · exact bind report pure

theorem atRuleBody_driven (name : Bytes) (rule : AtRule) :
    (atRuleBody (roomAt depth) (ruleSet (roomAt depth)) (atRule (roomAt depth)) name rule).Driven
      depth parser := by
  cases rule with
  | media => exact media_driven rules
  | keyframes => exact keyframes_driven
  | webkitKeyframes => exact keyframes_driven
  | importRule => exact importRule_driven
  | charset => exact charset_driven
  | fontFace => exact fontFace_driven
  | fontFeatureValues => exact fontFeatureValues_driven
  | colorProfile => exact colorProfile_driven
  | counterStyle => exact counterStyle_driven
  | container => exact container_driven rules
  | supports => exact supportsRule_driven rules
  | layer => exact layer_driven rules
  | page => exact page_driven
  | namespaceRule => exact namespaceRule_driven
  | viewport => exact viewport_driven

end Inside

/-- Rules are as deep as the counter shows. -/
theorem drivesRules (depth : Nat) : DrivesRules depth := by
  have inner (free : depth < nestingLimit) : DrivesRules (depth + 1) := drivesRules (depth + 1)
  constructor
  · intro parser
    have counted : Counter.blockWithin (roomAt depth) = nested depth refusedBlock fun inner =>
        ruleSetBlock (roomAt inner) (ruleSet (roomAt inner)) (atRule (roomAt inner)) :=
      Counter.nested_room rfl (fun _ => rfl) depth
    rw [Counter.ruleSet_eq, counted]
    refine ruleSetWith_driven fun parser => Reading.Driven.nested ?_ fun free => ?_
    · exact bind report (bind skipBlock pure)
    · exact advance (returning (ruleSetBody_driven (inner free)))
  · intro parser
    have counted : atRule (roomAt depth) = nested depth refusedAtRule fun inner =>
        atRuleWith (atRuleBody (roomAt inner) (ruleSet (roomAt inner)) (atRule (roomAt inner))) :=
      Counter.nested_room rfl (fun _ => rfl) depth
    rw [counted]
    refine Reading.Driven.nested (bind report (bind skipAtRule pure)) fun free => ?_
    exact atRuleWith_driven fun name rule parser => atRuleBody_driven (inner free) name rule
termination_by nestingLimit - depth

theorem stylesheet_driven : (stylesheet (roomAt depth)).Driven depth parser := by
  have rules := drivesRules depth
  refine bind (collect topMember_advances fun _ => current ?_) pure
  split
  next => exact map comment_driven
  next => exact map (rules.atRule _)
  next => exact ite (fun _ => map (rules.ruleSet _)) fun _ => bind report (advance pure)

end Rules

end Grammar

end CssSyntax

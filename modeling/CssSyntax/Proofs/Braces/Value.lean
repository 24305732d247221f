import CssSyntax.Proofs.Braces.Level
import CssSyntax.Proofs.Grammar.Progress
import CssSyntax.Proofs.Parser.Spans

/-! Values and declarations take no braces. Where one stands in a value it is dropped with a
problem, and so is what remains of a declaration that is broken. -/

namespace CssSyntax.Grammar

open Reading Mirrors

variable {α : Type} {parser : Parser} {room : Nat} {word : α → List Brace}

theorem brace?_of_kind {token : Token} {kind : Kind} (is : token.kind = kind) :
    token.brace? = kind.brace? :=
  congrArg Kind.brace? is

theorem brace?_of_either {token : Token} {kind other : Kind}
    (either : token.kind = kind ∨ token.kind = other) (plain : kind.brace? = none)
    (otherPlain : other.brace? = none) : token.brace? = none := by
  rcases either with is | is
  · exact (brace?_of_kind is).trans plain
  · exact (brace?_of_kind is).trans otherPlain

theorem brace?_of_isWord {token : Token} {word : Bytes} (spells : token.isWord word = true) :
    token.brace? = none :=
  brace?_of_kind (kind_of_isWord spells)

/-- A token outside a stop set is no brace if both braces are in the set. -/
theorem brace?_of_going {stop : Token → Bool} {token : Token}
    (opens : ∀ literal start, stop ⟨.openBrace, literal, start⟩ = true)
    (closes : ∀ literal start, stop ⟨.closeBrace, literal, start⟩ = true)
    (going : stop token = false) : token.brace? = none :=
  brace?_eq_none (kind_ne_of_going opens going) (kind_ne_of_going closes going)

theorem brace?_of_isStructural {token : Token} (going : token.isStructural = false) :
    token.brace? = none :=
  brace?_of_going (fun _ _ => rfl) (fun _ _ => rfl) going

section Tokens

variable {kind : Kind}

theorem accept_mirrors (plain : kind.brace? = none) : (accept kind).Mirrors parser noBraces := by
  refine currentIs (ite (fun is => ?_) fun _ => pure rfl)
  have here : parser.current.brace? = none := (brace?_of_kind (currentIs_iff.1 is)).trans plain
  exact (advance_mirrors here).before (pure rfl)

theorem expect_mirrors {problem : Problem} (plain : kind.brace? = none) :
    (expect kind problem).Mirrors parser noBraces :=
  (accept_mirrors plain).before (ite (fun _ => pure rfl) fun _ => report fun _ => pure_level)

end Tokens

theorem acceptWord_mirrors {word : Bytes} : (acceptWord word).Mirrors parser noBraces := by
  refine current (ite (fun spells => ?_) fun _ => pure rfl)
  exact (advance_mirrors (brace?_of_isWord spells)).before (pure rfl)

section Spans

theorem comments_plain : IsPlain Span.comments := by
  apply IsPlain.before
  intro token going
  have comment : token.kind = .comment := by simpa using going
  exact brace?_of_kind comment

theorem before_plain {stop : Token → Bool}
    (opens : ∀ literal start, stop ⟨.openBrace, literal, start⟩ = true)
    (closes : ∀ literal start, stop ⟨.closeBrace, literal, start⟩ = true) :
    IsPlain (Span.before stop) :=
  IsPlain.before fun _ => brace?_of_going opens closes

theorem marks_plain : IsPlain Span.marks :=
  before_plain (fun _ _ => rfl) fun _ _ => rfl

/-- One token more in front of a plain span. -/
theorem plain_cons {token : Token} {rest : List Token} {count : Nat} (first : token.brace? = none)
    (others : ∀ other ∈ rest.take count, other.brace? = none) :
    ∀ other ∈ (token :: rest).take (count + 1), other.brace? = none := by
  intro other member
  rw [List.take_succ_cons] at member
  rcases List.mem_cons.1 member with rfl | later
  · exact first
  · exact others other later

theorem glued_plain (stop : Nat) : IsPlain (Span.glued stop) := by
  intro tokens
  fun_induction Span.glued stop tokens with
  | case1 stop => simp
  | case2 stop token rest glues ih =>
    exact plain_cons (brace?_of_either glues.2 rfl rfl) ih
  | case3 => simp

theorem group_plain (opened : Nat) : IsPlain (Span.group opened) :=
  fun tokens token member => brace?_of_isStructural (Span.group_level opened tokens token member)

theorem inside_plain (stop : Token → Bool) (opened : Nat) : IsPlain (Span.inside stop opened) :=
  fun tokens token member =>
    brace?_of_isStructural (Span.inside_level stop opened tokens token member)

end Spans

section Values

/-- A unit is a name or a `%`. -/
theorem brace?_of_unitFollows (follows : parser.unitFollows = true) :
    parser.next.brace? = none := by
  have unit : parser.next.kind = .percentage ∨ parser.next.kind = .ident := by
    have either := Bool.or_eq_true_iff.1 (Bool.and_eq_true_iff.1 follows).2
    exact either.imp nextIs_iff.1 fun named => nextIs_iff.1 (Bool.and_eq_true_iff.1 named).1
  exact brace?_of_either unit rfl rfl

/-- Two tokens in a row that are no braces. -/
theorem advance_advance_mirrors {following : Unit → Reading α}
    (first : parser.current.brace? = none) (second : parser.next.brace? = none)
    (far : ∀ parser, (following ()).Mirrors parser word) :
    (advance >>= fun _ => advance >>= following).Mirrors parser word := by
  refine (advance_mirrors first).before ((advance_mirrors ?_).before (far _))
  rw [current_advance]
  exact second

theorem numberWithUnit_mirrors {number : Token} (plain : parser.current.brace? = none) :
    (numberWithUnit number).Mirrors parser noBraces := by
  have first := advance_mirrors plain
  refine look (ite (fun follows => ?_) fun _ => first.before (pure rfl))
  refine first.before (current ((advance_mirrors ?_).before (pure rfl)))
  rw [current_advance]
  exact brace?_of_unitFollows follows

theorem numeric_mirrors : numeric.Mirrors parser noBraces := by
  refine (take_mirrors marks_plain).before (current (ite (fun number => ?_) fun _ => pure rfl))
  exact returning (numberWithUnit_mirrors (brace?_of_kind number))

theorem tokenValue_mirrors {meaning : Bytes → Value} (plain : parser.current.brace? = none) :
    (tokenValue meaning).Mirrors parser noBraces :=
  current ((advance_mirrors plain).before (pure rfl))

theorem hashValue_mirrors (plain : parser.current.brace? = none) :
    hashValue.Mirrors parser noBraces :=
  current ((advance_mirrors plain).before ((take_mirrors (glued_plain _)).before (pure rfl)))

theorem markValue_mirrors (plain : parser.current.brace? = none) :
    markValue.Mirrors parser noBraces :=
  look (ite (fun _ => returning numeric_mirrors) fun _ => tokenValue_mirrors plain)

theorem droppedValue_mirrors : droppedValue.Mirrors parser noBraces :=
  recover .token (by simp [Recovery.table])

section Calls

variable {arguments : Reading (List Value)} (inner : ∀ parser, arguments.Mirrors parser noBraces)
include inner

theorem callWith_mirrors (plain : parser.current.brace? = none)
    (opens : parser.next.kind = .openParen) : (callWith arguments).Mirrors parser noBraces :=
  current (advance_advance_mirrors plain (brace?_of_kind opens) fun _ => returning (inner _))

theorem valueWith_mirrors (notClosing : parser.current.kind ≠ .closeBrace) :
    (valueWith arguments).Mirrors parser noBraces := by
  refine current ?_
  split
  next => exact map (map numeric_mirrors)
  next minus => exact map (markValue_mirrors (brace?_of_kind minus))
  next plus => exact map (markValue_mirrors (brace?_of_kind plus))
  next dot => exact map (markValue_mirrors (brace?_of_kind dot))
  next name =>
    have plain := brace?_of_kind name
    refine map (nextIs (ite (fun opens => ?_) fun _ => tokenValue_mirrors plain))
    exact callWith_mirrors inner plain (nextIs_iff.1 opens)
  next uri => exact map (tokenValue_mirrors (brace?_of_kind uri))
  next string => exact map (tokenValue_mirrors (brace?_of_kind string))
  next opens => exact map ((advance_mirrors (brace?_of_kind opens)).before (returning (inner _)))
  next hash => exact map (hashValue_mirrors (brace?_of_kind hash))
  next => exact droppedValue_mirrors
  next => exact droppedValue_mirrors
  next => exact droppedValue_mirrors
  next => exact pure rfl
  next notOpening _ _ => exact map (tokenValue_mirrors (brace?_eq_none notOpening notClosing))

theorem separatedValue_mirrors (notClosing : parser.current.kind ≠ .closeBrace) :
    (separatedValue (valueWith arguments)).Mirrors parser noBraces := by
  refine current (ite (fun separator => ?_) fun _ => returning (valueWith_mirrors inner notClosing))
  exact (advance_mirrors (brace?_of_either separator rfl rfl)).before (pure rfl)

end Calls

theorem closeArguments_mirrors : closeArguments.Mirrors parser noBraces := by
  refine current (ite (fun closes => ?_) fun _ => ite (fun _ => ?_) fun _ => ?_)
  · exact advance_mirrors (brace?_of_kind closes)
  · exact report_mirrors
  · exact report_mirrors

theorem arguments_mirrors (room : Nat) (parser : Parser) :
    (arguments room).Mirrors parser noBraces := by
  induction room generalizing parser with
  | zero => exact report fun _ => (skip_mirrors (group_plain 0)).level.bind pure_level
  | succ room ih =>
    have values := collect_mirrors_noBraces separatedValue_advances (fun _ going =>
      separatedValue_mirrors ih (kind_ne_of_going (fun _ _ => rfl) going)) parser
    exact values.before (closeArguments_mirrors.before (pure rfl))

theorem value_mirrors (notClosing : parser.current.kind ≠ .closeBrace) :
    (value room).Mirrors parser noBraces :=
  valueWith_mirrors (arguments_mirrors room) notClosing

theorem call_mirrors (plain : parser.current.brace? = none)
    (opens : parser.next.kind = .openParen) : (call room).Mirrors parser noBraces :=
  callWith_mirrors (arguments_mirrors room) plain opens

end Values

section Declarations

theorem declarationPart_mirrors (going : endsDeclaration parser.current = false) :
    (declarationPart (value room)).Mirrors parser noBraces := by
  refine look (ite (fun important => ?_) fun _ => ?_)
  · obtain ⟨mark, word⟩ := Bool.and_eq_true_iff.1 important
    exact advance_advance_mirrors (brace?_of_kind (currentIs_iff.1 mark)) (brace?_of_isWord word)
      fun _ => pure rfl
  · have notClosing : parser.current.kind ≠ .closeBrace := kind_ne_of_going (fun _ _ => rfl) going
    exact returning (separatedValue_mirrors (arguments_mirrors room) notClosing)

theorem declarationBody_mirrors {key : Bytes} :
    (declarationBody room key).Mirrors parser noBraces := by
  refine before (collect_mirrors_noBraces declarationPart_advances
    (fun _ => declarationPart_mirrors) parser) ?_
  exact ite (fun _ => report fun _ => pure_level) fun _ => pure rfl

theorem declaration_mirrors : (declaration room).Mirrors parser noBraces := by
  refine current (ite (fun name => ?_) fun _ => ?_)
  · refine (advance_mirrors (brace?_of_kind name)).before (expect (fun colon => ?_) fun _ => ?_)
    · exact (advance_mirrors (brace?_of_kind colon)).before declarationBody_mirrors
    · exact recover .declaration (by simp [Recovery.table])
  · exact recover .declaration (by simp [Recovery.table])

theorem brokenDeclaration_mirrors {word : List Node → List Brace} :
    brokenDeclaration.Mirrors parser word :=
  recover .declaration (by simp [Recovery.table])

theorem blockDeclaration_mirrors : (blockDeclaration room).Mirrors parser noBraces := by
  refine current (ite (fun separator => ?_) fun _ => ite (fun _ => ?_) fun _ => ?_)
  · exact (advance_mirrors (brace?_of_either separator rfl rfl)).before (pure rfl)
  · exact returning declaration_mirrors
  · exact recover .declaration (by simp [Recovery.table])

end Declarations

end CssSyntax.Grammar

import CssSyntax.Proofs.Relocation.Seal

/-! A parse without problems, with more tokens put after its own. It reads its own rules, and then
it is a parse of the tokens that were put there. -/

namespace CssSyntax

open Reading Relocation

namespace Relocation

/-- The tokens stay where they are. -/
def extend (more : List Token) (finish : Position) : Relocation := ⟨id, more, finish⟩

theorem extend_token (more : List Token) (finish : Position) (token : Token) :
    (extend more finish).token token = token := rfl

theorem extend_keeps (more : List Token) (finish : Position) (tokens : List Token) :
    (extend more finish).Keeps tokens :=
  List.pairwise_of_forall fun _ _ => Iff.rfl

/-- The parser at the first of the tokens that were added. -/
def beyond (relocation : Relocation) (parser : Parser) : Parser :=
  { parser with ahead := relocation.more, finish := relocation.finish }

theorem beyond_follows {relocation : Relocation} {parser after : Parser}
    (follows : parser.Follows after) (limit : Option Nat) (errors : List Diagnostic) :
    (relocation.beyond after).withErrors limit errors =
      (relocation.beyond parser).withErrors limit errors := by
  unfold beyond Parser.withErrors
  rw [follows.settings]

end Relocation

namespace Grammar

variable {relocation : Relocation} {parser : Parser} {room : Nat}

section Members

theorem length_pos_of_notEnd (notEnd : parser.current.kind ≠ .eof) : 0 < parser.ahead.length := by
  obtain ⟨rest, split⟩ := Parser.ahead_eq_cons notEnd
  rw [split]
  exact Nat.succ_pos _

/-- A token that is there is known whatever is behind it. -/
theorem current_of_notEnd (notEnd : parser.current.kind ≠ .eof) :
    (relocation.parser parser).current = relocation.token parser.current :=
  nth_of_length (length_pos_of_notEnd notEnd)

/-- The token that seals a rule, or a comment. -/
def EndsMember (token : Token) : Prop := token.seals = true ∨ token.kind = .comment

/-- Without a problem the reading ends like a member, and whatever is behind does not matter. -/
def Stands {α : Type} (relocation : Relocation) (reading : Reading α) (parser : Parser) : Prop :=
  relocation.Keeps parser.ahead → reading.found parser = [] →
    (∃ front last, reading.taken parser = front ++ [last] ∧ EndsMember last) ∧
      relocation.Agree reading reading parser

theorem stands_of_sealing {reading : Reading (Option Node)}
    (sealing : relocation.Sealing reading parser) : Stands relocation (nodes reading) parser := by
  intro keeps clean
  obtain ⟨⟨front, last, taken, seals⟩, agree⟩ := sealing keeps clean
  exact ⟨⟨front, last, taken, .inl seals⟩, agree.map⟩

theorem current_stands {α : Type} {next : Token → Reading α}
    (notEnd : parser.current.kind ≠ .eof) (placeless : Placeless next)
    (far : Stands relocation (next parser.current) parser) :
    Stands relocation (Reading.current >>= next) parser := by
  intro keeps clean
  rw [found_bind] at clean
  obtain ⟨⟨front, last, taken, ends⟩, agree⟩ := far keeps clean
  have same : next (relocation.token parser.current) = next parser.current :=
    placeless.token_eq _
  refine ⟨⟨front, last, ?_, ends⟩, .look (current_of_notEnd notEnd) (same ▸ agree)⟩
  rw [taken_current]
  exact taken

theorem comment_stands (is : parser.current.kind = .comment) :
    Stands relocation (nodes comment) parser := by
  intro _ _
  have notEnd := kind_ne_eof_of_eq is nofun
  have advances : relocation.Agree Reading.advance Reading.advance parser :=
    .skip rfl (.inr (length_pos_of_notEnd notEnd))
  constructor
  · exact ⟨[], parser.current, taken_advance notEnd, .inr is⟩
  · exact .map (.look (current_of_notEnd notEnd) (advances.bind (.look rfl .pure)))

theorem topMember_stands (notEnd : parser.current.kind ≠ .eof) :
    Stands relocation (topMember room) parser := by
  refine current_stands notEnd rfl ?_
  split
  next is => exact comment_stands is
  next mark => exact stands_of_sealing (atRule_sealing mark)
  next =>
    split
    next => exact stands_of_sealing ruleSet_sealing
    next => exact fun keeps clean => absurd clean (by simp [found_bind])

end Members

section Sheets

def members (room : Nat) : Reading (List Node) :=
  collect (fun token => token.kind == .eof) (topMember room)

/-- The tokens of a parse without problems end with a rule or a comment, if there are any. -/
theorem members_last (noEnd : ∀ token ∈ parser.ahead, token.kind ≠ .eof)
    (clean : (members room).found parser = []) :
    ∀ last ∈ parser.ahead.getLast?, EndsMember last := by
  induction parser using (measure fun parser : Parser => parser.ahead.length).wf.induction with
  | h parser ih =>
    by_cases ended : parser.current.kind = .eof
    · rw [ahead_of_end noEnd ended]
      exact fun last member => absurd member (Option.not_mem_none last)
    · have going : (parser.current.kind == .eof) = false := beq_eq_false_iff_ne.2 ended
      unfold members at clean
      rw [found_collect_step topMember_advances going] at clean
      obtain ⟨quiet, further⟩ := List.append_eq_nil_iff.1 clean
      have split := taken_append (topMember room) parser
      obtain ⟨⟨front, last, taken, ends⟩, _⟩ :=
        topMember_stands ended (extend_keeps [] parser.finish _) quiet
      have later := ih _ (topMember_advances parser going)
        (fun token member => noEnd token (split ▸ List.mem_append_right _ member)) further
      rw [← split, taken, List.getLast?_append]
      cases rest : (topMember room parser).2.ahead.getLast? with
      | some final =>
        intro other member
        obtain rfl := Option.some.inj member
        exact later final rest
      | none => simpa using ends

/-- The members that are read without a problem come first, then those of the tokens added. -/
theorem members_append (noEnd : ∀ token ∈ parser.ahead, token.kind ≠ .eof)
    (keeps : relocation.Keeps parser.ahead) (clean : (members room).found parser = [])
    (limit : Option Nat) (errors : List Diagnostic) :
    members room ((relocation.parser parser).withErrors limit errors) =
      let rest := members room ((relocation.beyond parser).withErrors limit errors)
      ((members room parser).1 ++ rest.1, rest.2) := by
  induction parser using (measure fun parser : Parser => parser.ahead.length).wf.induction with
  | h parser ih =>
    by_cases ended : parser.current.kind = .eof
    · have stopped : members room parser = ([], parser) := collect_stopped (beq_iff_eq.2 ended)
      have there : relocation.parser parser = relocation.beyond parser := by
        unfold Relocation.parser beyond
        rw [ahead_of_end noEnd ended]
        rfl
      rw [stopped, there]
      rfl
    · have going : (parser.current.kind == .eof) = false := beq_eq_false_iff_ne.2 ended
      unfold members at clean
      rw [found_collect_step topMember_advances going] at clean
      obtain ⟨quiet, further⟩ := List.append_eq_nil_iff.1 clean
      obtain ⟨_, problems, same, run⟩ := topMember_stands ended keeps quiet
      rw [quiet] at same
      obtain rfl := List.forall₂_nil_left_iff.1 same
      have split := taken_append (topMember room) parser
      have later := ih _ (topMember_advances parser going)
        (fun token member => noEnd token (split ▸ List.mem_append_right _ member)) keeps.later
        further
      have moved : (((relocation.parser parser).withErrors limit errors).current.kind == .eof) =
          false := by
        change ((relocation.parser parser).current.kind == .eof) = false
        rw [current_of_notEnd ended]
        exact going
      have first : members room parser = _ := collect_step topMember_advances going
      have whole : members room ((relocation.parser parser).withErrors limit errors) = _ :=
        collect_step topMember_advances moved
      rw [run, capped_nil] at whole
      change _ = ((topMember room parser).1 ++
        (members room ((relocation.parser _).withErrors limit errors)).1,
          (members room ((relocation.parser _).withErrors limit errors)).2) at whole
      rw [later, beyond_follows ((topMember room).follows parser)] at whole
      rw [whole, first]
      exact Prod.ext (List.append_assoc ..).symm rfl

end Sheets

end Grammar

end CssSyntax

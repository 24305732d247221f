import CssSyntax.Outline
import CssSyntax.Proofs.Text.Encoding

/-! Outlines are read back from their text. A text shows its lines, a line shows how deep it is,
its label and its content, and the lines show the tree: a line one level further out ends the
members of a block. -/

namespace CssSyntax

/-- A line of an outline: its level, the label before its content, and the content. -/
structure Line where
  level : Nat
  label : Option String
  content : String

/-- True of a text of letters alone. -/
def IsWord (text : String) : Prop := ∀ character ∈ text.toList, character.isAlpha = true

/-- What may stand on a line: neither a line feed nor a space in front, nor a word with a colon
behind it, which would be a label. -/
structure IsContent (content : String) : Prop where
  filled : content.toList ≠ []
  inLine : '\n' ∉ content.toList
  indented : content.toList.head? ≠ some ' '
  unlabelled : (content.toList.dropWhile Char.isAlpha).head? ≠ some ':'

namespace Line

/-- What stands on the line behind the indentation. -/
def body (line : Line) : List Char := (Writer.labelText line.label).toList ++ line.content.toList

/-- The line as it is written, without its line feed. -/
def text (line : Line) : List Char := List.replicate (2 * line.level) ' ' ++ line.body

structure Written (line : Line) : Prop where
  label : ∀ label ∈ line.label, IsWord label
  content : IsContent line.content

variable {left right : Line} {label other : Option String} {content second : String}

theorem labelText_some (label : String) :
    (Writer.labelText (some label)).toList = label.toList ++ ':' :: [' '] := by
  unfold Writer.labelText
  rw [String.toList_append]
  rfl

theorem newline_not_mem_word {word : String} (is : IsWord word) : '\n' ∉ word.toList :=
  fun member => absurd (is _ member) (by decide)

theorem Written.newline_not_mem (written : left.Written) : '\n' ∉ left.text := by
  unfold text body
  intro member
  rcases List.mem_append.1 member with space | behind
  · exact absurd (List.eq_of_mem_replicate space) (by decide)
  · rcases List.mem_append.1 behind with label | content
    · cases name : left.label with
      | none =>
        rw [name] at label
        exact absurd label List.not_mem_nil
      | some word =>
        rw [name, labelText_some] at label
        rcases List.mem_append.1 label with among | colon
        · exact newline_not_mem_word (written.label word name) among
        · exact absurd colon (by decide)
    · exact written.content.inLine content

/-- Lines with a line feed after each. -/
def render (lines : List Line) : List Char := lines.flatMap fun line => line.text ++ ['\n']

theorem render_append (front rest : List Line) :
    render (front ++ rest) = render front ++ render rest :=
  List.flatMap_append

theorem render_cons (line : Line) (rest : List Line) :
    render (line :: rest) = line.text ++ '\n' :: render rest := by
  unfold render
  rw [List.flatMap_cons, List.append_assoc]
  rfl

end Line

namespace Outline

mutual

/-- The lines of an outline whose first line is at `level`, after `label`. -/
def lines (level : Nat) : Option String → Outline → List Line
  | label, leaf text => [⟨level, label, text⟩]
  | label, block opening members closing =>
    ⟨level, label, opening⟩ :: (linesOfAll (level + 1) members ++ [⟨level, .none, closing⟩])
  | _, labelled label body => lines level (some label) body

def linesOfAll (level : Nat) : List Outline → List Line
  | [] => []
  | first :: rest => lines level .none first ++ linesOfAll level rest

end

end Outline

namespace Writer

/-- The writer after lines of text. No label waits any more. -/
def after (writer : Writer) (lines : List Line) : Writer :=
  ⟨writer.text ++ String.ofList (Line.render lines), writer.level, none⟩

theorem line_eq (writer : Writer) (content : String) :
    writer.line content = writer.after [⟨writer.level, writer.label, content⟩] := by
  unfold line after
  congr 1
  rw [← String.toList_inj]
  simp [Line.render, Line.text, Line.body, indentation]

theorem after_append (writer : Writer) (front rest : List Line) :
    (writer.after front).after rest = writer.after (front ++ rest) := by
  unfold after
  rw [Line.render_append, String.append_assoc, ← String.ofList_append]

theorem after_nil (writer : Writer) (free : writer.label = none) : writer.after [] = writer := by
  obtain ⟨text, level, label⟩ := writer
  obtain rfl : label = none := free
  unfold after
  congr 1
  exact String.append_empty

mutual

theorem write_eq (writer : Writer) :
    (outline : Outline) →
      writer.write outline = writer.after (outline.lines writer.level writer.label)
  | .leaf text => line_eq writer text
  | .block opening members closing => by
    -- Inside the members the level is one more, and no label waits.
    have opened : (writer.line opening).indent.label = none := rfl
    have inner := writeAll_eq (writer.line opening).indent opened members
    have outer (lines : List Line) :
        ((writer.line opening).indent.after lines).dedent = (writer.line opening).after lines := rfl
    rw [write, inner, outer, line_eq writer, line_eq, after_append, after_append]
    rfl
  | .labelled label body => write_eq (writer.named label) body

theorem writeAll_eq (writer : Writer) (free : writer.label = none) :
    (outlines : List Outline) →
      writer.writeAll outlines = writer.after (Outline.linesOfAll writer.level outlines)
  | [] => (after_nil writer free).symm
  | first :: rest => by
    have others := writeAll_eq (writer.after (first.lines writer.level none)) rfl rest
    rw [writeAll, write_eq writer first, free, others, after_append]
    rfl

end

/-- Without the line feeds at its end a text still ends with them, if there was one. -/
theorem finish_eq {writer : Writer} {front : List Char} {last : Char}
    (ends : writer.text.toList = front ++ [last, '\n']) (filled : last ≠ '\n') :
    writer.finish.toList = front ++ [last] := by
  unfold finish
  rw [ends, String.toList_ofList]
  simp [filled]

end Writer

namespace Outline

/-- True of the content of a line that opens a block. -/
def Opens (content : String) : Prop :=
  content.toList.getLast? = some '\x7b' ∨ content.toList.getLast? = some '['

/-- An outline that is read back from its lines: what opens a block shows it, and labels are words
that stand before something that is not labelled itself. -/
inductive Shaped : Outline → Prop
  | leaf {text : String} (content : IsContent text) (closed : ¬Opens text) : Shaped (leaf text)
  | block {opening closing : String} {members : List Outline} (opens : Opens opening)
      (first : IsContent opening) (last : IsContent closing)
      (inner : ∀ member ∈ members, Shaped member) : Shaped (block opening members closing)
  | labelled {label : String} {body : Outline} (word : IsWord label)
      (single : ∀ name inner, body ≠ .labelled name inner) (shaped : Shaped body) :
      Shaped (labelled label body)

/-- The label of an outline and what it stands before, if `label` already waits. -/
def parts (label : Option String) : Outline → Option String × Outline
  | .labelled name body => (some name, body)
  | outline => (label, outline)

variable {left right outline : Outline} {level : Nat} {label other : Option String}
variable {rest more : List Line}

theorem linesOfAll_eq (level : Nat) (outlines : List Outline) :
    linesOfAll level outlines = outlines.flatMap (lines level .none) := by
  induction outlines with
  | nil => rfl
  | cons first rest ih => rw [linesOfAll, ih, List.flatMap_cons]

theorem Shaped.written (shaped : outline.Shaped) (labels : ∀ name ∈ label, IsWord name) :
    ∀ line ∈ outline.lines level label, line.Written := by
  have noLabel : ∀ name ∈ (.none : Option String), IsWord name := fun _ member =>
    absurd member (Option.not_mem_none _)
  induction shaped generalizing level label with
  | leaf content _ =>
    intro line member
    obtain rfl := List.mem_singleton.1 member
    exact ⟨labels, content⟩
  | block _ first last _ inner =>
    intro line member
    rcases List.mem_cons.1 member with rfl | member
    · exact ⟨labels, first⟩
    · rcases List.mem_append.1 member with within | closing
      · rw [linesOfAll_eq] at within
        obtain ⟨member, among, within⟩ := List.mem_flatMap.1 within
        exact inner member among noLabel line within
      · obtain rfl := List.mem_singleton.1 closing
        exact ⟨noLabel, last⟩
  | labelled word _ _ inner =>
    refine inner fun name is => ?_
    obtain rfl := Option.some.inj is
    exact word

/-- The first line is at the level of the outline. -/
theorem lines_eq_cons (level : Nat) (label : Option String) :
    (outline : Outline) →
      ∃ first behind, outline.lines level label = first :: behind ∧ first.level = level
  | .leaf _ => ⟨_, _, rfl, rfl⟩
  | .block .. => ⟨_, _, rfl, rfl⟩
  | .labelled name body => lines_eq_cons level (some name) body

theorem linesOfAll_cons (level : Nat) (first : Outline) (others : List Outline) :
    linesOfAll level (first :: others) = first.lines level .none ++ linesOfAll level others := rfl

theorem parts_of_single (single : ∀ name inner, outline ≠ .labelled name inner)
    (label : Option String) : outline.parts label = (label, outline) := by
  cases outline with
  | leaf text => rfl
  | block opening members closing => rfl
  | labelled name body => exact absurd rfl (single name body)

theorem eq_of_parts (same : left.parts .none = right.parts .none) : left = right := by
  cases left <;> cases right <;> simp_all [parts]

/-- The lines of an outline are those of what its label stands before. -/
theorem Shaped.exists_body (shaped : outline.Shaped) (level : Nat) (label : Option String) :
    ∃ word body, outline.parts label = (word, body) ∧ body.Shaped ∧
      (∀ name inner, body ≠ .labelled name inner) ∧
      outline.lines level label = body.lines level word := by
  cases shaped with
  | leaf content closed => exact ⟨label, _, rfl, .leaf content closed, nofun, rfl⟩
  | block opens first last inner =>
    exact ⟨label, _, rfl, .block opens first last inner, nofun, rfl⟩
  | labelled word single shaped => exact ⟨_, _, rfl, shaped, single, rfl⟩

/-- The lines show the outline, whatever stands before them and behind them. -/
def Unique (outline : Outline) : Prop :=
  ∀ {right : Outline} {level : Nat} {label other : Option String} {rest more : List Line},
    right.Shaped → outline.lines level label ++ rest = right.lines level other ++ more →
      outline.parts label = right.parts other ∧ rest = more

/-- A line further out ends the members of a block. -/
theorem members_unique {members others : List Outline} {closing second : Line}
    (inner : ∀ member ∈ members, member.Unique) (shaped : ∀ member ∈ others, member.Shaped)
    (out : closing.level < level) (secondOut : second.level < level)
    (same : linesOfAll level members ++ closing :: rest =
      linesOfAll level others ++ second :: more) :
    members = others ∧ closing = second ∧ rest = more := by
  induction members generalizing others with
  | nil =>
    cases others with
    | nil => exact ⟨rfl, List.cons.inj same⟩
    | cons member members =>
      obtain ⟨first, behind, begins, at_⟩ := lines_eq_cons level .none member
      rw [linesOfAll_cons, begins] at same
      obtain ⟨rfl, -⟩ := List.cons.inj same
      omega
  | cons member members ih =>
    cases others with
    | nil =>
      obtain ⟨first, behind, begins, at_⟩ := lines_eq_cons level .none member
      rw [linesOfAll_cons, begins] at same
      obtain ⟨rfl, -⟩ := List.cons.inj same
      omega
    | cons member' members' =>
      rw [linesOfAll_cons, linesOfAll_cons, List.append_assoc, List.append_assoc] at same
      obtain ⟨first, behind⟩ := inner member List.mem_cons_self
        (shaped member' List.mem_cons_self) same
      obtain ⟨rfl, ends⟩ := ih (fun other among => inner other (List.mem_cons_of_mem _ among))
        (fun other among => shaped other (List.mem_cons_of_mem _ among)) behind
      exact ⟨congrArg (· :: members) (eq_of_parts first), ends⟩

theorem Shaped.unique (shaped : left.Shaped) : left.Unique := by
  induction shaped with
  | leaf content closed =>
    intro right level label other rest more rightShaped same
    obtain ⟨word, body, parts, bodyShaped, single, written⟩ := rightShaped.exists_body level other
    rw [written] at same
    rw [parts]
    cases bodyShaped with
    | leaf _ _ =>
      obtain ⟨line, behind⟩ := List.cons.inj same
      obtain ⟨-, rfl, rfl⟩ := Line.mk.inj line
      exact ⟨rfl, behind⟩
    | block opens _ _ _ =>
      obtain ⟨-, -, rfl⟩ := Line.mk.inj (List.cons.inj same).1
      exact absurd opens closed
    | labelled _ _ _ => exact absurd rfl (single _ _)
  | block opens first last members inner =>
    intro right level label other rest more rightShaped same
    obtain ⟨word, body, parts, bodyShaped, single, written⟩ := rightShaped.exists_body level other
    rw [written] at same
    rw [parts]
    cases bodyShaped with
    | leaf _ closed =>
      obtain ⟨-, -, rfl⟩ := Line.mk.inj (List.cons.inj same).1
      exact absurd opens closed
    | block _ _ _ others =>
      rw [lines, lines, List.cons_append, List.cons_append, List.append_assoc,
        List.append_assoc] at same
      obtain ⟨line, behind⟩ := List.cons.inj same
      obtain ⟨-, rfl, rfl⟩ := Line.mk.inj line
      obtain ⟨rfl, closing, ends⟩ := members_unique inner others (Nat.lt_succ_self level)
        (Nat.lt_succ_self level) behind
      obtain ⟨-, -, rfl⟩ := Line.mk.inj closing
      exact ⟨rfl, ends⟩
    | labelled _ _ _ => exact absurd rfl (single _ _)
  | labelled word single _ inner =>
    intro right level label other rest more rightShaped same
    obtain ⟨body, ends⟩ := inner rightShaped same
    rw [parts_of_single single] at body
    exact ⟨body, ends⟩

theorem Shaped.written_unlabelled (shaped : outline.Shaped) :
    ∀ line ∈ outline.lines 0 .none, line.Written :=
  shaped.written fun _ member => absurd member (Option.not_mem_none _)

/-- The text of an outline, with a line feed behind it, is that of its lines. -/
theorem Shaped.text_eq (shaped : outline.Shaped) :
    outline.text.toList ++ ['\n'] = Line.render (outline.lines 0 .none) := by
  have whole : (Writer.empty.write outline).text.toList = Line.render (outline.lines 0 .none) := by
    rw [Writer.write_eq]
    exact String.toList_ofList
  obtain ⟨front, last, split⟩ : ∃ front last, outline.lines 0 .none = front ++ [last] := by
    obtain ⟨first, behind, begins, -⟩ := lines_eq_cons 0 .none outline
    exact ⟨_, _, (List.dropLast_append_getLast (begins ▸ List.cons_ne_nil first behind)).symm⟩
  have among : last ∈ outline.lines 0 .none := split ▸ List.mem_append_right _ List.mem_cons_self
  have written := shaped.written_unlabelled last among
  obtain ⟨head, tail, ends⟩ : ∃ head tail, last.content.toList = head ++ [tail] :=
    ⟨_, _, (List.dropLast_append_getLast written.content.filled).symm⟩
  have noFeed : tail ≠ '\n' := by
    rintro rfl
    exact written.content.inLine (ends ▸ List.mem_append_right _ List.mem_cons_self)
  have rendered : Line.render (outline.lines 0 .none) = (Line.render front ++
      (List.replicate (2 * last.level) ' ' ++ ((Writer.labelText last.label).toList ++ head))) ++
        [tail, '\n'] := by
    rw [split, Line.render_append, Line.render_cons]
    simp [Line.text, Line.body, Line.render, ends]
  have finished := Writer.finish_eq (whole.trans rendered) noFeed
  rw [rendered]
  unfold text
  rw [finished, List.append_assoc]
  rfl

end Outline

end CssSyntax

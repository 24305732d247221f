import CssSyntax.Proofs.Outline.Shape
import Mathlib.Data.List.Basic

/-! An outline among others. Its lines there are the rows of its own text, each as deep as the
outline stands, and a label that waited is on the first of them. -/

namespace CssSyntax

namespace Writer

/-- The rows of a text. -/
def rows (text : String) : List (List Char) := text.toList.splitOn '\n'

/-- Rows written `level` levels deeper, a line feed after each, with the label on the first. -/
def nested (level : Nat) (label : Option String) : List (List Char) → List Char
  | [] => []
  | first :: others =>
    (indentation level).toList ++ (labelText label).toList ++ first ++ ['\n'] ++
      others.flatMap fun row => (indentation level).toList ++ row ++ ['\n']

end Writer

namespace Line

/-- The line with `levels` more before it. -/
def deeper (levels : Nat) (line : Line) : Line := { line with level := line.level + levels }

theorem text_deeper (levels : Nat) (line : Line) :
    (line.deeper levels).text = (Writer.indentation levels).toList ++ line.text := by
  have spaces : List.replicate (2 * (line.level + levels)) ' ' =
      List.replicate (2 * levels) ' ' ++ List.replicate (2 * line.level) ' ' := by
    rw [← List.replicate_add]
    congr 1
    omega
  unfold text Writer.indentation
  rw [String.toList_ofList, ← List.append_assoc, ← spaces]
  rfl

theorem render_deeper (levels : Nat) (lines : List Line) :
    render (lines.map (deeper levels)) = (lines.map text).flatMap fun row =>
      (Writer.indentation levels).toList ++ row ++ ['\n'] := by
  unfold render
  rw [List.flatMap_map, List.flatMap_map]
  simp only [text_deeper]

theorem render_eq_intercalate {lines : List Line} (some : lines ≠ []) :
    render lines = ['\n'].intercalate (lines.map text) ++ ['\n'] := by
  induction lines with
  | nil => exact absurd rfl some
  | cons line rest ih =>
    cases rest with
    | nil =>
      rw [render_cons, List.map_singleton, List.intercalate_singleton]
      rfl
    | cons second others =>
      have behind := ih (List.cons_ne_nil second others)
      rw [render_cons, behind]
      simp only [List.map_cons, List.intercalate_cons_cons, List.append_assoc,
        List.cons_append, List.nil_append]

end Line

namespace Outline

variable {outline : Outline}

mutual

theorem lines_add (level levels : Nat) (label : Option String) : (outline : Outline) →
    outline.lines (level + levels) label = (outline.lines level label).map (Line.deeper levels)
  | leaf _ => rfl
  | block opening members closing => by
    have inner := linesOfAll_add (level + 1) levels members
    rw [Nat.add_right_comm] at inner
    rw [lines, lines, inner, List.map_cons, List.map_append]
    rfl
  | labelled name body => lines_add level levels (some name) body

theorem linesOfAll_add (level levels : Nat) : (outlines : List Outline) →
    linesOfAll (level + levels) outlines = (linesOfAll level outlines).map (Line.deeper levels)
  | [] => rfl
  | first :: rest => by
    have others := linesOfAll_add level levels rest
    rw [linesOfAll_cons, linesOfAll_cons, lines_add level levels .none first, others,
      List.map_append]

end

/-- A label that waits changes the first line and no other. -/
theorem IsItem.lines_label (item : outline.IsItem) : ∃ content behind,
    ∀ label, outline.lines 0 label = ⟨0, label, content⟩ :: behind := by
  cases outline with
  | leaf text => exact ⟨text, [], fun _ => rfl⟩
  | block opening members closing => exact ⟨opening, _, fun _ => rfl⟩
  | labelled name body => exact absurd rfl (item.single name body)

/-- The rows of the text of an outline are its lines. -/
theorem Shaped.rows_text (shaped : outline.Shaped) :
    Writer.rows outline.text = (outline.lines 0 .none).map Line.text := by
  have some : outline.lines 0 .none ≠ [] := by
    obtain ⟨first, behind, begins, -⟩ := lines_eq_cons 0 .none outline
    exact begins ▸ List.cons_ne_nil first behind
  have ended := shaped.text_eq
  rw [Line.render_eq_intercalate some] at ended
  have joined := List.append_cancel_right ended
  unfold Writer.rows
  rw [joined]
  refine List.splitOn_intercalate '\n' (fun row member => ?_) (List.map_eq_nil_iff.not.2 some)
  obtain ⟨line, among, rfl⟩ := List.mem_map.1 member
  exact (shaped.written_unlabelled line among).newline_not_mem

theorem IsItem.render_lines (item : outline.IsItem) (level : Nat) (label : Option String) :
    Line.render (outline.lines level label) =
      Writer.nested level label (Writer.rows outline.text) := by
  obtain ⟨content, behind, begins⟩ := item.lines_label
  have deep := lines_add 0 level label outline
  rw [Nat.zero_add, begins, List.map_cons] at deep
  rw [item.shaped.rows_text, deep, Line.render_cons, Line.render_deeper, begins .none]
  -- The first line is at level 0 in the text, so that the label comes right behind the level.
  simp [Writer.nested, Line.text, Line.body, Line.deeper, Writer.indentation, Writer.labelText]

end Outline

namespace Writer

/-- Writing an outline writes its own rows, nested. -/
theorem write_nested {outline : Outline} (item : outline.IsItem) (writer : Writer) :
    writer.write outline = ⟨writer.text ++ String.ofList (nested writer.level writer.label
      (rows outline.text)), writer.level, none⟩ := by
  rw [write_eq, ← item.render_lines]
  rfl

example : nested 1 (some "Url") (rows "A \x7b\n  B\n\x7d") =
    "  Url: A \x7b\n    B\n  \x7d\n".toList := by decide +kernel

end Writer

end CssSyntax

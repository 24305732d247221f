import CssSyntax.Text.Quoted

/-! Outlines: a tree written over several lines, two spaces for each level. A node is one line,
or an opening line, the members one level deeper and a closing line. A label stands on the first
line of what it names. -/

namespace CssSyntax

inductive Outline where
  | leaf (text : String)
  | block (opening : String) (members : List Outline) (closing : String)
  | labelled (label : String) (body : Outline)

namespace Outline

/-- A named node with its fields between braces. -/
def record (name : String) (fields : List Outline) : Outline :=
  block (name ++ " \x7b") fields "\x7d"

def list (items : List Outline) : Outline :=
  match items with
  | [] => leaf "[]"
  | items => block "[" items "]"

def bytes (value : Bytes) : Outline := leaf (quoted value)

def flag (value : Bool) : Outline := leaf (if value then "true" else "false")

/-- What stands for an absent part. -/
def none : Outline := leaf "none"

def optional (value : Option Outline) : Outline := value.getD none

end Outline

/-- Written lines, the level of the next line and the label that waits for it. -/
structure Writer where
  text : String
  level : Nat
  label : Option String

namespace Writer

def empty : Writer := ⟨"", 0, none⟩

def indentation (level : Nat) : String := String.ofList (List.replicate (2 * level) ' ')

def labelText : Option String → String
  | none => ""
  | some label => label ++ ": "

/-- One line at the writer's level, after the label if one waits. -/
def line (writer : Writer) (content : String) : Writer :=
  { writer with
    text := writer.text ++ indentation writer.level ++ labelText writer.label ++ content ++ "\n"
    label := none }

def indent (writer : Writer) : Writer := { writer with level := writer.level + 1 }

def dedent (writer : Writer) : Writer := { writer with level := writer.level - 1 }

def named (writer : Writer) (label : String) : Writer := { writer with label := some label }

def openRecord (writer : Writer) (name : String) : Writer := (writer.line (name ++ " \x7b")).indent

def closeRecord (writer : Writer) : Writer := writer.dedent.line "\x7d"

mutual

def write : Writer → Outline → Writer
  | writer, .leaf text => writer.line text
  | writer, .block opening members closing =>
    ((writeAll (writer.line opening).indent members).dedent).line closing
  | writer, .labelled label body => write (writer.named label) body

def writeAll : Writer → List Outline → Writer
  | writer, [] => writer
  | writer, first :: rest => writeAll (write writer first) rest

end

/-- The written text without the line feeds at its end. -/
def finish (writer : Writer) : String :=
  String.ofList (writer.text.toList.reverse.dropWhile (· == '\n')).reverse

end Writer

def Outline.text (outline : Outline) : String := (Writer.empty.write outline).finish

end CssSyntax

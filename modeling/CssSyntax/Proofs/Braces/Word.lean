import CssSyntax.Syntax.Tree
import CssSyntax.Token.Basic

/-! The braces of tokens and of trees, as words over two letters. A word is balanced if every
closing brace closes an earlier one and none stays open. -/

namespace CssSyntax

inductive Brace where
  | opening
  | closing
deriving DecidableEq, Repr

namespace Brace

/-- How many blocks are open after the word, or none if it closes one more than are open. -/
def depth : Nat → List Brace → Option Nat
  | opened, [] => some opened
  | opened, opening :: rest => depth (opened + 1) rest
  | 0, closing :: _ => none
  | opened + 1, closing :: rest => depth opened rest

def Balanced (word : List Brace) : Prop := depth 0 word = some 0

instance (word : List Brace) : Decidable (Balanced word) :=
  inferInstanceAs (Decidable (depth 0 word = some 0))

/-- True of a word that closes only what it opens. -/
def Opens (word : List Brace) : Prop := ∃ opened, depth 0 word = some opened

/-- A block with the word inside. -/
def block (inner : List Brace) : List Brace := opening :: inner ++ [closing]

theorem depth_append (opened : Nat) (left right : List Brace) :
    depth opened (left ++ right) = (depth opened left).bind fun inner => depth inner right := by
  fun_induction depth opened left with
  | case1 opened => rfl
  | case2 opened rest ih => exact ih
  | case3 rest => rfl
  | case4 opened rest ih => exact ih

/-- Blocks that are open around a word do not matter to it. -/
theorem depth_add {opened after : Nat} {word : List Brace} (outer : Nat)
    (ends : depth opened word = some after) :
    depth (opened + outer) word = some (after + outer) := by
  fun_induction depth opened word generalizing after with
  | case1 opened =>
    obtain rfl := Option.some.inj ends
    rfl
  | case2 opened rest ih =>
    have inner := ih ends
    rw [Nat.add_right_comm] at inner
    exact inner
  | case3 rest => exact absurd ends (Option.some_ne_none after).symm
  | case4 opened rest ih =>
    rw [Nat.succ_add]
    exact ih ends

theorem depth_of_balanced {word : List Brace} (balanced : Balanced word) (opened : Nat) :
    depth opened word = some opened := by
  have ends := depth_add opened balanced
  rwa [Nat.zero_add] at ends

theorem Balanced.nil : Balanced [] := rfl

theorem Balanced.opens {word : List Brace} (balanced : Balanced word) : Opens word :=
  ⟨0, balanced⟩

theorem depth_append_of_balanced {left : List Brace} (balanced : Balanced left) (opened : Nat)
    (right : List Brace) : depth opened (left ++ right) = depth opened right := by
  rw [depth_append, depth_of_balanced balanced]
  rfl

theorem Balanced.append {left right : List Brace} (first : Balanced left)
    (second : Balanced right) : Balanced (left ++ right) := by
  unfold Balanced
  rw [depth_append_of_balanced first]
  exact second

theorem Balanced.append_opens {left right : List Brace} (first : Balanced left)
    (second : Opens right) : Opens (left ++ right) := by
  unfold Opens
  rw [depth_append_of_balanced first]
  exact second

theorem Opens.opening {word : List Brace} (opens : Opens word) : Opens (opening :: word) := by
  obtain ⟨opened, ends⟩ := opens
  exact ⟨opened + 1, depth_add 1 ends⟩

theorem Balanced.block {inner : List Brace} (balanced : Balanced inner) :
    Balanced (block inner) := by
  change depth 1 (inner ++ [closing]) = some 0
  rw [depth_append_of_balanced balanced]
  rfl

end Brace

open Brace

def Kind.brace? : Kind → Option Brace
  | .openBrace => some .opening
  | .closeBrace => some .closing
  | _ => none

def Token.brace? (token : Token) : Option Brace := token.kind.brace?

/-- The braces of a run of tokens. -/
def braces (tokens : List Token) : List Brace := tokens.filterMap Token.brace?

theorem braces_nil : braces [] = [] := rfl

theorem braces_append (front back : List Token) :
    braces (front ++ back) = braces front ++ braces back :=
  List.filterMap_append

theorem braces_cons_opening {token : Token} (opens : token.kind = .openBrace)
    (rest : List Token) : braces (token :: rest) = .opening :: braces rest := by
  simp [braces, Token.brace?, Kind.brace?, opens]

theorem braces_cons_closing {token : Token} (closes : token.kind = .closeBrace)
    (rest : List Token) : braces (token :: rest) = .closing :: braces rest := by
  simp [braces, Token.brace?, Kind.brace?, closes]

theorem braces_cons_plain {token : Token} (plain : token.brace? = none) (rest : List Token) :
    braces (token :: rest) = braces rest := by
  simp [braces, plain]

theorem braces_eq_nil {tokens : List Token} (plain : ∀ token ∈ tokens, token.brace? = none) :
    braces tokens = [] :=
  List.filterMap_eq_nil_iff.2 plain

theorem brace?_eq_none {token : Token} (notOpening : token.kind ≠ .openBrace)
    (notClosing : token.kind ≠ .closeBrace) : token.brace? = none := by
  unfold Token.brace? Kind.brace?
  split
  next opens => exact absurd opens notOpening
  next closes => exact absurd closes notClosing
  next => rfl

/-- What is left after the `}` that closes the block around the tokens. -/
def afterBlock : Nat → List Token → Option (List Token)
  | _, [] => none
  | opened, token :: rest =>
    match token.brace? with
    | none => afterBlock opened rest
    | some .opening => afterBlock (opened + 1) rest
    | some .closing => if opened = 0 then some rest else afterBlock (opened - 1) rest

/-- Blocks that are whole do not close the one around them. -/
theorem afterBlock_append {opened after : Nat} {inner : List Token}
    (ends : depth opened (braces inner) = some after) (rest : List Token) :
    afterBlock opened (inner ++ rest) = afterBlock after rest := by
  induction inner generalizing opened with
  | nil =>
    obtain rfl := Option.some.inj ends
    rfl
  | cons token inner ih =>
    rw [List.cons_append, afterBlock]
    split
    next plain =>
      rw [braces_cons_plain plain] at ends
      exact ih ends
    next opens =>
      simp only [braces, List.filterMap_cons, opens] at ends
      exact ih ends
    next closes =>
      simp only [braces, List.filterMap_cons, closes] at ends
      cases opened with
      | zero => exact absurd ends (Option.some_ne_none after).symm
      | succ opened => exact ih ends

mutual

/-- The braces of a node: a pair for each block, with the pairs inside it. -/
def Node.braces : Node → List Brace
  | .comment _ => []
  | .ruleSet _ rules => block (Node.bracesOf rules)
  | .declaration _ => []
  | .media _ rules => block (Node.bracesOf rules)
  | .keyframes _ _ stops => block (stops.flatMap fun _ => block [])
  | .importRule _ _ _ _ => []
  | .charset _ => []
  | .fontFace _ => block []
  | .fontFeatureValues _ blocks => block (blocks.flatMap fun _ => block [])
  | .colorProfile _ _ => block []
  | .counterStyle _ _ => block []
  | .container _ _ rules => block (Node.bracesOf rules)
  | .supports _ rules => block (Node.bracesOf rules)
  | .layerStatement _ => []
  | .layerBlock _ rules => block (Node.bracesOf rules)
  | .page _ _ => block []
  | .namespaceRule _ _ => []
  | .viewport _ _ => block []

/-- The braces of nodes, in document order. -/
def Node.bracesOf : List Node → List Brace
  | [] => []
  | node :: rest => Node.braces node ++ Node.bracesOf rest

end

theorem Node.bracesOf_eq (nodes : List Node) : Node.bracesOf nodes = nodes.flatMap Node.braces := by
  induction nodes with
  | nil => rfl
  | cons node rest ih => rw [Node.bracesOf, List.flatMap_cons, ih]

def Stylesheet.braces (sheet : Stylesheet) : List Brace := Node.bracesOf sheet.rules

end CssSyntax

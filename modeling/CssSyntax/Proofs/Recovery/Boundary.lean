import CssSyntax.Proofs.Braces.Word
import CssSyntax.Proofs.Parser.Motion
import Mathlib.Data.List.Induction

/-! Where recoveries stop. A recovery goes on up to the first token that ends it, and whether a
token does so depends on the tokens that were read before it: a bracket is matched or not by what
stands in front of it. The counters of the recoveries know as much of that as is needed. -/

namespace CssSyntax

namespace Brace

/-- A closing bracket behind the word has its opening one in the word. -/
def Pairs (word : List Brace) : Prop :=
  ∃ outer inner, word = outer ++ opening :: inner ∧ Balanced inner

/-- A closing bracket behind the word belongs to the first opening one of the word. -/
def PairsFirst (word : List Brace) : Prop :=
  ∃ outer inner, word = outer ++ opening :: inner ∧ opening ∉ outer ∧ Balanced inner

/-- Each opening bracket of the word has its closing one in the word. -/
def Whole (word : List Brace) : Prop :=
  ∀ outer inner, word = outer ++ opening :: inner →
    ∃ body rest, inner = body ++ closing :: rest ∧ Balanced body

variable {word : List Brace} {opened : Nat}

theorem depth_opening (ends : depth 0 word = some opened) :
    depth 0 (word ++ [opening]) = some (opened + 1) := by
  rw [depth_append, ends]
  rfl

theorem depth_closing (ends : depth 0 word = some (opened + 1)) :
    depth 0 (word ++ [closing]) = some opened := by
  rw [depth_append, ends]
  rfl

/-- As many brackets are open as there are more opening than closing ones. -/
theorem count_of_depth {start : Nat} (ends : depth start word = some opened) :
    start + word.count opening = opened + word.count closing := by
  fun_induction depth start word with
  | case1 start =>
    obtain rfl := Option.some.inj ends
    rfl
  | case2 start rest ih =>
    have inner := ih ends
    simp only [List.count_cons_self, List.count_cons_of_ne, ne_eq, reduceCtorEq,
      not_false_eq_true]
    omega
  | case3 rest => exact absurd ends (Option.some_ne_none opened).symm
  | case4 start rest ih =>
    have inner := ih ends
    simp only [List.count_cons_self, List.count_cons_of_ne, ne_eq, reduceCtorEq,
      not_false_eq_true]
    omega

/-- One more closing bracket is enough for all opening ones if at most one of them is open. -/
theorem closing_enough_iff (ends : depth 0 word = some opened) :
    (word ++ [closing]).count opening ≤ (word ++ [closing]).count closing ↔ opened ≤ 1 := by
  have balance := count_of_depth ends
  have opens : (word ++ [closing]).count opening = word.count opening := by simp
  have closes : (word ++ [closing]).count closing = word.count closing + 1 := by simp
  omega

/-- Each level that is open was opened by a bracket, and `more` levels were opened inside of it. -/
theorem exists_opening {level more : Nat} (ends : depth 0 word = some (level + 1 + more)) :
    ∃ outer inner, word = outer ++ opening :: inner ∧ depth 0 inner = some more := by
  -- From the right: the last bracket is the one that opened the level, or it is part of the inside.
  induction word using List.reverseRecOn generalizing more with
  | nil =>
    have none : 0 = level + 1 + more := Option.some.inj ends
    omega
  | append_singleton front last ih =>
    rw [depth_append] at ends
    obtain ⟨before, start, step⟩ := Option.bind_eq_some_iff.1 ends
    cases last with
    | opening =>
      have above : before + 1 = level + 1 + more := Option.some.inj step
      cases more with
      | zero => exact ⟨front, [], rfl, rfl⟩
      | succ more =>
        obtain rfl : before = level + 1 + more := by omega
        obtain ⟨outer, inner, rfl, inside⟩ := ih start
        exact ⟨outer, inner ++ [opening], by simp, depth_opening inside⟩
    | closing =>
      cases before with
      | zero => exact absurd step (Option.some_ne_none _).symm
      | succ before =>
        obtain rfl : before = level + 1 + more := Option.some.inj step
        obtain ⟨outer, inner, rfl, inside⟩ := @ih (more + 1) start
        exact ⟨outer, inner ++ [closing], by simp, depth_closing inside⟩

/-- What closes a level more than are open inside of it has a bracket that closes this level. -/
theorem exists_closing {start level after : Nat}
    (ends : depth (start + level + 1) word = some after) (below : after ≤ level) :
    ∃ body rest, word = body ++ closing :: rest ∧ depth start body = some 0 := by
  induction word generalizing start with
  | nil =>
    have all : start + level + 1 = after := Option.some.inj ends
    omega
  | cons first rest ih =>
    cases first with
    | opening =>
      have deeper : depth (start + 1 + level + 1) rest = some after := by
        rw [Nat.add_right_comm start 1 level]
        exact ends
      obtain ⟨body, behind, rfl, inside⟩ := ih deeper
      exact ⟨opening :: body, behind, rfl, inside⟩
    | closing =>
      cases start with
      | zero => exact ⟨[], rest, rfl, rfl⟩
      | succ start =>
        rw [Nat.succ_add, Nat.succ_add] at ends
        obtain ⟨body, behind, rfl, inside⟩ := ih ends
        exact ⟨closing :: body, behind, rfl, inside⟩

theorem pairs_iff (ends : depth 0 word = some opened) : Pairs word ↔ opened ≠ 0 := by
  constructor
  · rintro ⟨outer, inner, rfl, balanced⟩
    rw [depth_append] at ends
    obtain ⟨before, -, step⟩ := Option.bind_eq_some_iff.1 ends
    have inside : depth (before + 1) inner = some opened := step
    rw [depth_of_balanced balanced] at inside
    exact (Option.some.inj inside) ▸ Nat.succ_ne_zero before
  · intro some
    obtain ⟨level, rfl⟩ := Nat.exists_eq_succ_of_ne_zero some
    exact @exists_opening _ level 0 ends

theorem whole_iff (ends : depth 0 word = some opened) : Whole word ↔ opened = 0 := by
  constructor
  · intro whole
    refine Decidable.byContradiction fun some => ?_
    obtain ⟨outer, inner, split, balanced⟩ := (pairs_iff ends).2 some
    obtain ⟨body, rest, rfl, closed⟩ := whole outer inner split
    unfold Balanced at balanced
    rw [depth_append_of_balanced closed] at balanced
    exact Option.some_ne_none 0 balanced.symm
  · rintro rfl outer inner rfl
    rw [depth_append] at ends
    obtain ⟨before, -, step⟩ := Option.bind_eq_some_iff.1 ends
    have inside : depth (0 + before + 1) inner = some 0 := by rwa [Nat.zero_add]
    exact exists_closing inside (Nat.zero_le before)

theorem pairsFirst_iff : PairsFirst (opening :: word) ↔ Balanced word := by
  constructor
  · rintro ⟨outer, inner, split, none, balanced⟩
    cases outer with
    | nil =>
      obtain ⟨-, rfl⟩ := List.cons.inj split
      exact balanced
    | cons first others =>
      obtain ⟨rfl, -⟩ := List.cons.inj split
      exact absurd List.mem_cons_self none
  · intro balanced
    exact ⟨[], word, rfl, List.not_mem_nil, balanced⟩

end Brace

open Brace

def Kind.paren? : Kind → Option Brace
  | .openParen => some .opening
  | .closeParen => some .closing
  | _ => none

/-- The parentheses of a run of tokens. -/
def parens (tokens : List Token) : List Brace := tokens.filterMap fun token => token.kind.paren?

/-- What ends a stretch of tokens, given the part of the stretch in front of it: a token that the
stretch stops right before, or one that it stops right behind. -/
structure Boundary where
  before : List Token → Token → Prop
  behind : List Token → Token → Prop

namespace Boundary

/-- No token ends the stretch. -/
def Passes (boundary : Boundary) (tokens : List Token) : Prop :=
  ∀ front token rest, tokens = front ++ token :: rest →
    ¬boundary.before front token ∧ ¬boundary.behind front token

/-- How long the stretch is: it goes up to the first token that ends it. -/
inductive Ends (boundary : Boundary) (tokens : List Token) : Nat → Prop where
  | before {front : List Token} {token : Token} {rest : List Token}
      (split : tokens = front ++ token :: rest) (passes : boundary.Passes front)
      (stops : boundary.before front token) : Ends boundary tokens front.length
  | behind {front : List Token} {token : Token} {rest : List Token}
      (split : tokens = front ++ token :: rest) (passes : boundary.Passes front)
      (goes : ¬boundary.before front token) (stops : boundary.behind front token) :
      Ends boundary tokens (front.length + 1)
  | never (passes : boundary.Passes tokens) : Ends boundary tokens tokens.length

variable {boundary : Boundary} {front tokens rest : List Token} {token : Token} {count : Nat}

theorem passes_nil : boundary.Passes [] :=
  fun _ _ _ split => absurd split (List.append_ne_nil_of_right_ne_nil _ (List.cons_ne_nil _ _)).symm

theorem Passes.concat (passes : boundary.Passes front) (goes : ¬boundary.before front token)
    (further : ¬boundary.behind front token) : boundary.Passes (front ++ [token]) := by
  intro outer other inner split
  rcases List.eq_nil_or_concat inner with rfl | ⟨between, last, rfl⟩
  · obtain ⟨rfl, same⟩ := List.append_inj' split rfl
    obtain rfl := List.singleton_inj.1 same
    exact ⟨goes, further⟩
  · have whole : front ++ [token] = (outer ++ other :: between) ++ [last] := by simpa using split
    exact passes outer other between (List.append_inj' whole rfl).1

/-- What passes is no longer than the part in front of a token that ends the stretch. -/
theorem Passes.length_le {outer inner : List Token} (passes : boundary.Passes outer)
    (stops : boundary.before front token ∨ boundary.behind front token)
    (same : front ++ token :: rest = outer ++ inner) : outer.length ≤ front.length := by
  rcases List.append_eq_append_iff.1 same with ⟨between, rfl, split⟩ | ⟨between, rfl, -⟩
  · cases between with
    | nil => simp
    | cons first others =>
      obtain ⟨rfl, -⟩ := List.cons.inj split
      have passed := passes front token others rfl
      exact absurd stops (not_or.2 passed)
  · simp

/-- There is only one place where a stretch can end. -/
theorem Ends.unique {first second : Nat} (near : boundary.Ends tokens first)
    (far : boundary.Ends tokens second) : first = second := by
  have same {front outer : List Token} {token other : Token} {rest inner : List Token}
      (split : tokens = front ++ token :: rest) (whole : tokens = outer ++ other :: inner)
      (passes : boundary.Passes front) (passed : boundary.Passes outer)
      (stops : boundary.before front token ∨ boundary.behind front token)
      (ends : boundary.before outer other ∨ boundary.behind outer other) :
      front = outer ∧ token = other := by
    have one := passes.length_le ends (whole.symm.trans split)
    have two := passed.length_le stops (split.symm.trans whole)
    obtain ⟨rfl, equal⟩ := List.append_inj (split.symm.trans whole) (Nat.le_antisymm one two)
    exact ⟨rfl, (List.cons.inj equal).1⟩
  cases near with
  | before split passes stops =>
    cases far with
    | before whole passed ends =>
      rw [(same split whole passes passed (.inl stops) (.inl ends)).1]
    | behind whole passed goes ends =>
      obtain ⟨rfl, rfl⟩ := same split whole passes passed (.inl stops) (.inr ends)
      exact absurd stops goes
    | never passed => exact absurd stops (passed _ _ _ split).1
  | behind split passes goes stops =>
    cases far with
    | before whole passed ends =>
      obtain ⟨rfl, rfl⟩ := same split whole passes passed (.inr stops) (.inl ends)
      exact absurd ends goes
    | behind whole passed further ends =>
      rw [(same split whole passes passed (.inr stops) (.inr ends)).1]
    | never passed => exact absurd stops (passed _ _ _ split).2
  | never passes =>
    cases far with
    | before whole passed ends => exact absurd ends (passes _ _ _ whole).1
    | behind whole passed goes ends => exact absurd ends (passes _ _ _ whole).2
    | never => rfl

/-- The stretch goes on behind `front` for `count` of the tokens there. -/
def EndsFrom (boundary : Boundary) (front tokens : List Token) (count : Nat) : Prop :=
  boundary.Passes front → boundary.Ends (front ++ tokens) (front.length + count)

namespace EndsFrom

theorem nil : boundary.EndsFrom front [] 0 := by
  intro passes
  rw [List.append_nil]
  exact .never passes

theorem before (stops : boundary.before front token) : boundary.EndsFrom front (token :: rest) 0 :=
  fun passes => .before rfl passes stops

theorem behind (goes : ¬boundary.before front token) (stops : boundary.behind front token) :
    boundary.EndsFrom front (token :: rest) 1 :=
  fun passes => .behind rfl passes goes stops

theorem further (goes : ¬boundary.before front token) (passed : ¬boundary.behind front token)
    (more : boundary.EndsFrom (front ++ [token]) rest count) :
    boundary.EndsFrom front (token :: rest) (count + 1) := by
  intro passes
  have ends := more (passes.concat goes passed)
  rwa [List.append_assoc, List.length_append, List.length_singleton, Nat.add_assoc,
    Nat.add_comm 1] at ends

theorem ends (all : boundary.EndsFrom [] tokens count) : boundary.Ends tokens count := by
  have ends := all passes_nil
  rwa [List.length_nil, Nat.zero_add] at ends

end EndsFrom

end Boundary

end CssSyntax

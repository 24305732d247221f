import CssSyntax.Byte

/-! A dictionary keeps its keys in bytewise order, each of them once, so two dictionaries with the
same entries are equal. -/

namespace CssSyntax.Dictionary

/-- Keys are ordered by the bytes of their UTF-8 form. -/
def order (left right : String) : Ordering := compare (utf8 left) (utf8 right)

def before {α : Type} (left right : String × α) : Prop := order left.1 right.1 = .lt

instance {α : Type} (left right : String × α) : Decidable (before left right) :=
  inferInstanceAs (Decidable (order left.1 right.1 = .lt))

/-- The value put last under a key holds. -/
def insertEntry {α : Type} (key : String) (value : α) : List (String × α) → List (String × α)
  | [] => [(key, value)]
  | entry :: rest =>
    match order key entry.1 with
    | .lt => (key, value) :: entry :: rest
    | .eq => (key, value) :: rest
    | .gt => entry :: insertEntry key value rest

theorem order_trans {first second third : String} (one : order first second = .lt)
    (two : order second third = .lt) : order first third = .lt :=
  @Std.TransCmp.lt_trans Bytes compare _ _ _ _ one two

theorem order_gt_iff {left right : String} : order left right = .gt ↔ order right left = .lt :=
  @Std.OrientedCmp.gt_iff_lt Bytes compare _ _ _

theorem order_of_eq {left right other : String} (same : order left right = .eq) :
    order left other = order right other := by
  unfold order at *
  rw [Std.LawfulEqCmp.eq_of_compare same]

theorem mem_insertEntry {α : Type} {key : String} {value : α} {entry : String × α}
    {entries : List (String × α)} (member : entry ∈ insertEntry key value entries) :
    entry = (key, value) ∨ entry ∈ entries := by
  induction entries with
  | nil => simpa [insertEntry] using member
  | cons first rest ih =>
    unfold insertEntry at member
    split at member
    · simpa using member
    · simp only [List.mem_cons] at member ⊢
      exact member.imp_right .inr
    · simp only [List.mem_cons] at member ⊢
      rcases member with same | later
      · exact .inr (.inl same)
      · exact (ih later).imp_right .inr

theorem insertEntry_ordered {α : Type} {key : String} {value : α} {entries : List (String × α)}
    (ordered : entries.Pairwise before) : (insertEntry key value entries).Pairwise before := by
  induction entries with
  | nil => simp [insertEntry]
  | cons first rest ih =>
    have above := (List.pairwise_cons.1 ordered).1
    have tail := (List.pairwise_cons.1 ordered).2
    unfold insertEntry
    split
    · next less =>
      refine List.pairwise_cons.2 ⟨fun entry member => ?_, ordered⟩
      rcases List.mem_cons.1 member with same | later
      · exact same ▸ less
      · exact order_trans less (above entry later)
    · next same =>
      refine List.pairwise_cons.2 ⟨fun entry member => ?_, tail⟩
      exact (order_of_eq same).trans (above entry member)
    · next greater =>
      refine List.pairwise_cons.2 ⟨fun entry member => ?_, ih tail⟩
      rcases mem_insertEntry member with same | later
      · exact same ▸ order_gt_iff.1 greater
      · exact above entry later

end CssSyntax.Dictionary

namespace CssSyntax

structure Dictionary (α : Type) where
  entries : List (String × α)
  ordered : entries.Pairwise Dictionary.before
deriving DecidableEq

namespace Dictionary

def empty {α : Type} : Dictionary α := ⟨[], .nil⟩

def insert {α : Type} (dictionary : Dictionary α) (key : String) (value : α) : Dictionary α :=
  ⟨insertEntry key value dictionary.entries, insertEntry_ordered dictionary.ordered⟩

/-- The dictionary of a list of entries. Of two entries under one key the later holds. -/
def ofList {α : Type} (entries : List (String × α)) : Dictionary α :=
  entries.foldl (fun dictionary entry => dictionary.insert entry.1 entry.2) empty

def get? {α : Type} (dictionary : Dictionary α) (key : String) : Option α :=
  dictionary.entries.lookup key

end Dictionary

end CssSyntax

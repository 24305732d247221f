import CssSyntax.AtRule.Kind

/-! A registry says which at-rule each name stands for. Names are kept in lower case, each of
them once, so the case of a name never matters. -/

namespace CssSyntax

structure Registry where
  entries : List (Bytes × AtRule)
  distinct : (entries.map (·.1)).Nodup

namespace Registry

def empty : Registry := ⟨[], List.nodup_nil⟩

def lookup (registry : Registry) (name : Bytes) : Option AtRule :=
  registry.entries.lookup (Bytes.lower name)

def erase (registry : Registry) (name : Bytes) : Registry where
  entries := registry.entries.filter fun entry => entry.1 != Bytes.lower name
  distinct := registry.distinct.sublist (List.filter_sublist.map _)

/-- The last rule given to a name holds. -/
def insert (registry : Registry) (name : Bytes) (rule : AtRule) : Registry where
  entries := (Bytes.lower name, rule) :: (registry.erase name).entries
  distinct := by
    refine List.nodup_cons.2 ⟨?_, (registry.erase name).distinct⟩
    simp [erase]

def size (registry : Registry) : Nat := registry.entries.length

/-- The registry of the built-in names. -/
def builtin : Registry :=
  AtRule.builtins.foldl (fun registry entry => registry.insert (utf8 entry.1) entry.2) empty

/-- True if both registries give each name the same rule. -/
def agrees (left right : Registry) : Bool :=
  left.size == right.size &&
    left.entries.all fun entry => right.entries.lookup entry.1 == some entry.2

end Registry

end CssSyntax

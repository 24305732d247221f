import CssSyntax.Parser.State
import CssSyntax.Dictionary

/-! The options of a parse: whether comments are kept, how many diagnostics are recorded, which
names at-rules have besides the built-in ones, and which names have none. -/

namespace CssSyntax

structure Options where
  keepComments : Bool
  maxErrors : Option Nat
  /-- Further names of at-rules, each with the built-in name whose grammar it shares. -/
  aliases : Dictionary String
  disabled : List String
deriving DecidableEq

namespace Options

def standard : Options := ⟨true, none, .empty, []⟩

/-- Sets an alias. Its target is not looked at. -/
def withAlias (options : Options) (name target : String) : Options :=
  { options with aliases := options.aliases.insert name target }

def aliasTarget? (target : String) : Option AtRule := AtRule.ofBuiltin? (utf8 target)

/-- An alias of no built-in name stands for nothing. -/
def addAlias (registry : Registry) (entry : String × String) : Registry :=
  match aliasTarget? entry.2 with
  | some rule => registry.insert (utf8 entry.1) rule
  | none => registry

/-- The built-in names, then the aliases in the order of their names, less the disabled names. -/
def registry (options : Options) : Registry :=
  options.disabled.foldl (fun registry name => registry.erase (utf8 name))
    (options.aliases.entries.foldl addAlias .builtin)

def settings (options : Options) : Settings :=
  ⟨options.registry, options.keepComments, options.maxErrors⟩

/-- The first alias whose target is no built-in name. -/
def brokenAlias? (options : Options) : Option (String × String) :=
  options.aliases.entries.find? fun entry => (aliasTarget? entry.2).isNone

end Options

end CssSyntax

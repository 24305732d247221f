import CssSyntax.Json.Printer
import CssSyntax.Json.Reader
import CssSyntax.Options.Basic

/-! Options as JSON. A whole set of options is read from an object, or from an array of its values
in a fixed order. An update is an object with the options to change. -/

namespace CssSyntax

/-- Why options were refused. -/
inductive OptionsError where
  /-- The text is no JSON, or a value is of the wrong sort. -/
  | malformed
  | notObject (document : Json)
  | unknownItem (name : String)
  | unknownTarget (entry : String × String)

/-- Malformed options are refused without a message of their own. -/
def OptionsError.message? : OptionsError → Option String
  | malformed => none
  | notObject document => some ("got invalid configuration object " ++ document.text)
  | unknownItem name => some ("unknown configuration item `" ++ name ++ "`")
  | unknownTarget entry =>
    some ("at-rule alias `" ++ entry.1 ++ "` points to unknown at-rule `" ++ entry.2 ++ "`")

namespace Options

/-- The options by the names that they have in a document. -/
inductive Item where
  | keepComments
  | maxErrors
  | aliases
  | disabled
deriving DecidableEq, Repr

namespace Item

def all : List Item := [keepComments, maxErrors, aliases, disabled]

def name : Item → String
  | keepComments => "keepComments"
  | maxErrors => "maxErrors"
  | aliases => "atRuleAliases"
  | disabled => "disabledAtRules"

def ofName? (name : String) : Option Item := all.find? fun item => item.name == name

end Item

def boolOf? : Json → Option Bool
  | .bool value => some value
  | _ => none

/-- A limit is a whole number, or null for none. -/
def limitOf? : Json → Option (Option Nat)
  | .null => some none
  | .number (.natural value) => some (some value)
  | _ => none

def stringOf? : Json → Option String
  | .string value => some value
  | _ => none

def stringsOf? : Json → Option (List String)
  | .array items => items.mapM stringOf?
  | _ => none

def entryOf? (member : String × Json) : Option (String × String) :=
  (stringOf? member.2).map fun value => (member.1, value)

def dictionaryOf? : Json → Option (Dictionary String)
  | .object members => (members.mapM entryOf?).map Dictionary.ofList
  | _ => none

/-- Sets one option. None if the value is of the wrong sort. -/
def set? (options : Options) (value : Json) : Item → Option Options
  | .keepComments => (boolOf? value).map fun found => { options with keepComments := found }
  | .maxErrors => (limitOf? value).map fun found => { options with maxErrors := found }
  | .aliases => (dictionaryOf? value).map fun found => { options with aliases := found }
  | .disabled => (stringsOf? value).map fun found => { options with disabled := found }

def setAll? (options : Options) : List (Item × Json) → Option Options
  | [] => some options
  | (item, value) :: rest => (options.set? value item).bind fun found => found.setAll? rest

def itemOf? (member : String × Json) : Option (Item × Json) :=
  (Item.ofName? member.1).map fun item => (item, member.2)

/-- Options whose aliases all have a built-in name as target. -/
def checked (options : Options) : Except OptionsError Options :=
  match options.brokenAlias? with
  | some entry => .error (.unknownTarget entry)
  | none => .ok options

/-- The options that a document gives, the rest as they are by default. A name may stand in it
once. -/
def ofDocument? : Json → Option Options
  | .object members =>
    if (members.map (·.1)).Nodup then (members.mapM itemOf?).bind standard.setAll? else none
  | .array values =>
    if values.length ≤ Item.all.length then standard.setAll? (Item.all.zip values) else none
  | _ => none

def ofText (text : String) : Except OptionsError Options :=
  match (Json.ofText? text).bind ofDocument? with
  | some options => options.checked
  | none => .error .malformed

/-- The members of an update that name no option. -/
def unknownItem? (members : List (String × Json)) : Option String :=
  (members.find? fun member => (Item.ofName? member.1).isNone).map (·.1)

def updateMembers (options : Options) (members : List (String × Json)) :
    Except OptionsError Options :=
  match unknownItem? members with
  | some name => .error (.unknownItem name)
  | none =>
    match (members.mapM itemOf?).bind options.setAll? with
    | some found => found.checked
    | none => .error .malformed

/-- Changes the options that the document names and leaves the others. The first problem in the
order of names is the one that is told. -/
def update (options : Options) (document : Json) : Except OptionsError Options :=
  match document.canonical with
  | .object members => options.updateMembers members
  | other => .error (.notObject other)

def updateText (options : Options) (text : String) : Except OptionsError Options :=
  match Json.ofText? text with
  | some document => options.update document
  | none => .error .malformed

/-- The two ways to change options by a text: to those of a whole document, or by an update. -/
inductive Change where
  | replace (text : String)
  | update (text : String)

def change (options : Options) : Change → Except OptionsError Options
  | .replace text => ofText text
  | .update text => options.updateText text

/-- A change that is refused leaves the options as they are. -/
def afterChange (options : Options) (change : Change) : Options :=
  match options.change change with
  | .ok found => found
  | .error _ => options

end Options

end CssSyntax

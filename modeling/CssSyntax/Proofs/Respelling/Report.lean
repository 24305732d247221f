import CssSyntax.Proofs.Respelling.Rule
import CssSyntax.Report

/-! What a parse does not depend on: comments change nothing but the comment nodes of the tree, and
letters in another case nothing but the letters of the tree. -/

namespace CssSyntax

namespace Respelling

variable (respelling : Respelling)

theorem ofTokens_map (settings : Settings) (source : Bytes) :
    Parser.ofTokens (respelling.settings settings) (tokenize (source.map respelling.byte)) =
      respelling.parser (Parser.ofTokens settings (tokenize source)) := by
  obtain ⟨front, position, split, _⟩ := (tokenize_tiles source).lossless.finish
  have marked : (tokenize source).map respelling.token =
      front.map respelling.token ++ [Token.endOfInput position] := by
    rw [split, List.map_append]
    rfl
  rw [tokenize_map, marked, ofTokens_eq, split, ofTokens_eq]
  rfl

/-- The source that was written again has the respelled tree and the same diagnostics. -/
theorem report_map (settings : Settings) (source : Bytes) :
    Report.ofTokens (respelling.settings settings) (tokenize (source.map respelling.byte)) =
      ⟨respelling.stylesheet (Report.ofTokens settings (tokenize source)).stylesheet,
        (Report.ofTokens settings (tokenize source)).errors⟩ := by
  unfold Report.ofTokens
  rw [ofTokens_map, stylesheet_carries (Parser.ofTokens_quoted settings source)]
  rfl

theorem dropping_stylesheet (sheet : Stylesheet) :
    dropping.stylesheet sheet = sheet.withoutComments := by
  have rules := dropComments_respellAll dropping rfl sheet.rules
  have same : Node.respellAll dropping.byte sheet.rules = sheet.rules :=
    Node.respellAll_id sheet.rules
  rw [same] at rules
  exact congrArg Stylesheet.mk rules.symm

theorem lowering_stylesheet (sheet : Stylesheet) : lowering.stylesheet sheet = sheet.lower :=
  congrArg Stylesheet.mk (respellAll_eq_nodes lowering rfl sheet.rules).symm

end Respelling

/-- A parse that drops comments yields the tree of the parse that keeps them less the comment nodes
at every depth, and the same diagnostics. -/
theorem parse_dropping_comments (options : Options) (source : Bytes) :
    Report.ofSource { options with keepComments := false } source =
      ⟨(Report.ofSource { options with keepComments := true } source).stylesheet.withoutComments,
        (Report.ofSource { options with keepComments := true } source).errors⟩ := by
  have dropped := Respelling.dropping.report_map
    (Options.settings { options with keepComments := true }) source
  have same : source.map Respelling.dropping.byte = source := List.map_id source
  rw [same, Respelling.dropping_stylesheet] at dropped
  exact dropped

section Names

theorem Bytes.lower_lower (bytes : Bytes) : Bytes.lower (Bytes.lower bytes) = Bytes.lower bytes :=
  Respelling.lower_map Respelling.lowering bytes

theorem Registry.eq_of_entries {left right : Registry} (same : left.entries = right.entries) :
    left = right := by
  cases left
  cases right
  cases same
  rfl

theorem Registry.erase_lower (registry : Registry) (name : Bytes) :
    registry.erase (Bytes.lower name) = registry.erase name := by
  apply Registry.eq_of_entries
  change registry.entries.filter (fun entry => entry.1 != Bytes.lower (Bytes.lower name)) = _
  rw [Bytes.lower_lower]
  rfl

theorem Registry.insert_lower (registry : Registry) (name : Bytes) (rule : AtRule) :
    registry.insert (Bytes.lower name) rule = registry.insert name rule := by
  apply Registry.eq_of_entries
  change (Bytes.lower (Bytes.lower name), rule) :: (registry.erase (Bytes.lower name)).entries = _
  rw [Bytes.lower_lower, Registry.erase_lower]
  rfl

theorem AtRule.ofBuiltin?_lower (name : Bytes) :
    AtRule.ofBuiltin? (Bytes.lower name) = AtRule.ofBuiltin? name := by
  have same (word : Bytes) :
      Bytes.sameIgnoringCase word (Bytes.lower name) = Bytes.sameIgnoringCase word name :=
    Respelling.sameIgnoringCase_map Respelling.lowering word name
  unfold AtRule.ofBuiltin?
  simp only [same]

namespace Options

def foldedName (name : String) : Bytes := Bytes.lower (utf8 name)

/-- An alias and its target in lower case. -/
def foldedAlias (entry : String × String) : Bytes × Bytes :=
  (foldedName entry.1, foldedName entry.2)

/-- The same aliases and the same disabled names, each of them in any case. -/
structure SameNames (left right : Options) : Prop where
  aliases : left.aliases.entries.map foldedAlias = right.aliases.entries.map foldedAlias
  disabled : left.disabled.map foldedName = right.disabled.map foldedName

def addFolded (registry : Registry) (entry : Bytes × Bytes) : Registry :=
  match AtRule.ofBuiltin? entry.2 with
  | some rule => registry.insert entry.1 rule
  | none => registry

theorem addFolded_eq (registry : Registry) (entry : String × String) :
    addFolded registry (foldedAlias entry) = addAlias registry entry := by
  unfold addFolded addAlias foldedAlias foldedName aliasTarget?
  dsimp only
  rw [AtRule.ofBuiltin?_lower]
  cases AtRule.ofBuiltin? (utf8 entry.2) with
  | some rule => exact registry.insert_lower _ rule
  | none => rfl

/-- The registry of some options is made of their names in lower case. -/
theorem registry_eq (options : Options) :
    options.registry =
      (options.disabled.map foldedName).foldl Registry.erase
        ((options.aliases.entries.map foldedAlias).foldl addFolded .builtin) := by
  have erased (registry : Registry) (name : String) :
      registry.erase (foldedName name) = registry.erase (utf8 name) := registry.erase_lower _
  rw [List.foldl_map, List.foldl_map]
  simp only [addFolded_eq, erased]
  rfl

theorem SameNames.registry_eq {left right : Options} (names : left.SameNames right) :
    left.registry = right.registry := by
  rw [Options.registry_eq, Options.registry_eq, names.aliases, names.disabled]

end Options

end Names

/-- The token with its bytes in lower case, at the same place. -/
def Token.lower (token : Token) : Token := { token with literal := Bytes.lower token.literal }

theorem tokenize_lower (source : Bytes) :
    tokenize (Bytes.lower source) = (tokenize source).map Token.lower :=
  Respelling.tokenize_map Respelling.lowering source

theorem Report.ofSource_lower (options : Options) (source : Bytes) :
    Report.ofSource options (Bytes.lower source) =
      ⟨(Report.ofSource options source).stylesheet.lower,
        (Report.ofSource options source).errors⟩ := by
  have lowered := Respelling.lowering.report_map options.settings source
  rw [Respelling.lowering_stylesheet] at lowered
  exact lowered

/-- Two sources that differ in the case of their letters have the same tokens at the same places,
the same tree and the same diagnostics, up to the case of the letters that tokens and tree are
written with. Nor does the case of the names matter that the options give at-rules. -/
theorem parse_ignores_case (options : Options) (source text : Bytes)
    (same : Bytes.lower source = Bytes.lower text) :
    (tokenize source).map Token.lower = (tokenize text).map Token.lower ∧
      (Report.ofSource options source).stylesheet.lower =
        (Report.ofSource options text).stylesheet.lower ∧
      (Report.ofSource options source).errors = (Report.ofSource options text).errors ∧
      ∀ other : Options, options.SameNames other → other.registry = options.registry := by
  have reports := congrArg (Report.ofSource options) same
  rw [Report.ofSource_lower, Report.ofSource_lower] at reports
  have parts := Report.mk.inj reports
  apply And.intro
  · rw [← tokenize_lower, ← tokenize_lower, same]
  · exact ⟨parts.1, parts.2, fun other names => names.registry_eq.symm⟩

theorem parse_ignores_case_alias :
    Bytes.lower (utf8 "@WIDE Screen\x7bA:Hover\x7bColor:#FFF\x7d\x7d") =
        Bytes.lower (utf8 "@wide screen\x7ba:hover\x7bcolor:#fff\x7d\x7d") ∧
      (Report.ofSource (Options.standard.withAlias "Wide" "MEDIA")
          (utf8 "@WIDE Screen\x7bA:Hover\x7bColor:#FFF\x7d\x7d")).stylesheet.lower =
        (Report.ofSource (Options.standard.withAlias "Wide" "MEDIA")
          (utf8 "@wide screen\x7ba:hover\x7bcolor:#fff\x7d\x7d")).stylesheet.lower ∧
      (Options.standard.withAlias "wide" "Media").registry =
        (Options.standard.withAlias "Wide" "MEDIA").registry := by
  have same : Bytes.lower (utf8 "@WIDE Screen\x7bA:Hover\x7bColor:#FFF\x7d\x7d") =
      Bytes.lower (utf8 "@wide screen\x7ba:hover\x7bcolor:#fff\x7d\x7d") := by
    decide +kernel
  have all := parse_ignores_case (Options.standard.withAlias "Wide" "MEDIA") _ _ same
  exact ⟨same, all.2.1, all.2.2.2 _ ⟨by decide +kernel, rfl⟩⟩

end CssSyntax

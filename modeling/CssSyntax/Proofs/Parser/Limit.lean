import CssSyntax.Proofs.Parser.Trace
import CssSyntax.Report

/-! A limit to the diagnostics only cuts their list short. No reading looks at what was recorded,
so the run with the limit takes the steps of the run without it. -/

namespace CssSyntax

open Reading

theorem capped_of_nil (limit : Nat) (found : List Diagnostic) :
    capped (some limit) [] found = found.take limit := by
  simp [capped]

/-- Before the first token the limit is all that a parser knows of its diagnostics. -/
theorem Parser.ofTokens_withErrors (settings : Settings) (tokens : List Token)
    (limit : Option Nat) :
    (Parser.ofTokens settings tokens).withErrors limit [] =
      Parser.ofTokens { settings with maxErrors := limit } tokens := by
  unfold Parser.ofTokens
  split
  · rfl
  · split <;> rfl

/-- Under every limit a report shows one tree, and the first of the problems found. -/
theorem Report.ofTokens_limited (settings : Settings) (tokens : List Token) (limit : Option Nat) :
    Report.ofTokens { settings with maxErrors := limit } tokens =
      ⟨(Grammar.stylesheet Grammar.nestingLimit (Parser.ofTokens settings tokens)).1,
        capped limit []
          ((Grammar.stylesheet Grammar.nestingLimit).found (Parser.ofTokens settings tokens))⟩ := by
  unfold Report.ofTokens
  rw [← Parser.ofTokens_withErrors, run_withErrors]
  rfl

/-- A parse with a limit yields the tree of the parse without one, and the first diagnostics of
that parse in their order, as many as the limit allows. -/
theorem parse_capped (options : Options) (source : Bytes) (limit : Nat) :
    Report.ofSource { options with maxErrors := some limit } source =
      ⟨(Report.ofSource { options with maxErrors := none } source).stylesheet,
        (Report.ofSource { options with maxErrors := none } source).errors.take limit⟩ := by
  have limited := Report.ofTokens_limited options.settings (tokenize source) (some limit)
  have unlimited := Report.ofTokens_limited options.settings (tokenize source) none
  change Report.ofTokens { options.settings with maxErrors := some limit } _ =
    ⟨(Report.ofTokens { options.settings with maxErrors := none } _).stylesheet,
      (Report.ofTokens { options.settings with maxErrors := none } _).errors.take limit⟩
  rw [limited, unlimited, capped_of_nil]
  rfl

end CssSyntax

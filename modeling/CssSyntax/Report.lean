import CssSyntax.Options.Basic
import CssSyntax.Production
import CssSyntax.Token.Stream

/-! The whole way from source to tree. A parse always yields a tree, and its diagnostics say
whether to trust it. -/

namespace CssSyntax

structure Report where
  stylesheet : Stylesheet
  errors : List Diagnostic

namespace Report

def ofTokens (settings : Settings) (tokens : List Token) : Report :=
  let found := Grammar.stylesheet Grammar.nestingLimit (Parser.ofTokens settings tokens)
  ⟨found.1, found.2.errors⟩

def ofSource (options : Options) (source : Bytes) : Report :=
  ofTokens options.settings (tokenize source)

/-- The tree, and below it a line for each diagnostic. -/
def text (report : Report) : String :=
  report.errors.foldl (fun text diagnostic => text ++ "\n" ++ diagnostic.summary)
    report.stylesheet.outline.text

end Report

/-- Why there is no tree to trust. -/
inductive Failure where
  | unreadable
  | diagnostics (errors : List Diagnostic)

namespace Failure

def message : Failure → String
  | unreadable => "could not read css input"
  | diagnostics errors => "css input has " ++ toString errors.length ++ " parse error(s)"

def code : Failure → String
  | unreadable => "cssast::io"
  | diagnostics _ => "cssast::parse"

/-- What helps to understand a diagnostic. -/
def help (diagnostic : Diagnostic) : String := "offending token: " ++ diagnostic.token.name

end Failure

/-- The tree of a parse without diagnostics. -/
def Report.check (report : Report) : Except Failure Stylesheet :=
  match report.errors with
  | [] => .ok report.stylesheet
  | errors => .error (.diagnostics errors)

end CssSyntax

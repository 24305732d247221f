import CssSyntax.Call
import CssSyntax.Options.Document
import CssSyntax.Source
import CssSyntax.Proofs.Token.Tiling
import CssSyntax.Proofs.Parser.Motion
import CssSyntax.Proofs.Grammar.Progress
import CssSyntax.Proofs.Parser.Trace
import CssSyntax.Proofs.Braces.Level
import CssSyntax.Proofs.Braces.Value
import CssSyntax.Proofs.Braces.Block
import CssSyntax.Proofs.Braces.Prelude
import CssSyntax.Proofs.Braces.Rule
import CssSyntax.Proofs.Braces.Structure
import CssSyntax.Proofs.Token.Spelling
import CssSyntax.Proofs.Parser.Yield
import CssSyntax.Proofs.Tree.WellFormed
import CssSyntax.Proofs.Tree.Depth
import CssSyntax.Proofs.Relocation.Place
import CssSyntax.Proofs.Relocation.Link
import CssSyntax.Proofs.Relocation.Prelude
import CssSyntax.Proofs.Relocation.Rule
import CssSyntax.Proofs.Relocation.Seal
import CssSyntax.Proofs.Relocation.Append
import CssSyntax.Proofs.Token.Seam
import CssSyntax.Proofs.Relocation.Compose
import CssSyntax.Proofs.Relocation.Layout
import CssSyntax.Proofs.Token.Delimited
import CssSyntax.Proofs.Token.Newline
import CssSyntax.Proofs.Token.Located
import CssSyntax.Proofs.Token.Ending
import CssSyntax.Proofs.Token.Color
import CssSyntax.Proofs.Scanner.Step
import CssSyntax.Proofs.Scanner.Lexeme
import CssSyntax.Proofs.Scanner.Run
import CssSyntax.Proofs.Comments.Bare
import CssSyntax.Proofs.Comments.Clear
import CssSyntax.Proofs.Comments.Prelude
import CssSyntax.Proofs.Comments.Rule
import CssSyntax.Proofs.Comments.Transparent
import CssSyntax.Proofs.Parser.Limit
import CssSyntax.Proofs.Parser.Quiet
import CssSyntax.Proofs.Parser.Spans
import CssSyntax.Proofs.Respelling.Letter
import CssSyntax.Proofs.Respelling.Tree
import CssSyntax.Proofs.Respelling.Look
import CssSyntax.Proofs.Respelling.Link
import CssSyntax.Proofs.Respelling.Prelude
import CssSyntax.Proofs.Respelling.Rule
import CssSyntax.Proofs.Respelling.Report
import CssSyntax.Proofs.Nesting.Skip
import CssSyntax.Proofs.Nesting.Track
import CssSyntax.Proofs.Nesting.Prelude
import CssSyntax.Proofs.Nesting.Rule
import CssSyntax.Proofs.Nesting.Refusal
import CssSyntax.Proofs.Parser.Reads
import CssSyntax.Proofs.Written.Value
import CssSyntax.Proofs.Written.Selector
import CssSyntax.Proofs.Written.RuleSet
import CssSyntax.Proofs.Tree.Filled
import CssSyntax.Proofs.Outline.Lines
import CssSyntax.Proofs.Outline.Shape
import CssSyntax.Proofs.Outline.Tree
import CssSyntax.Proofs.Conservation.Declaration
import CssSyntax.Proofs.Conservation.Selector
import CssSyntax.Proofs.Driver.Calls
import CssSyntax.Proofs.Driver.Depth
import CssSyntax.Proofs.Token.Content
import CssSyntax.Proofs.Value.Numeral
import CssSyntax.Proofs.Value.Important
import CssSyntax.Proofs.Parser.Trail
import CssSyntax.Proofs.Grammar.Prelude
import CssSyntax.Proofs.Grammar.Confinement
import CssSyntax.Proofs.Tree.Measured
import CssSyntax.Proofs.Verbatim.Kept
import CssSyntax.Proofs.Written.Supports
import CssSyntax.Proofs.Written.MediaQuery
import CssSyntax.Proofs.Written.Import
import CssSyntax.Proofs.Relocation.Isolation
import CssSyntax.Proofs.Recovery.Boundary
import CssSyntax.Proofs.Recovery.Stop
import CssSyntax.Proofs.Token.Truncated
import CssSyntax.Proofs.Order.Walk
import CssSyntax.Proofs.Order.Prelude
import CssSyntax.Proofs.Order.Rule
import CssSyntax.Proofs.Options.Item
import CssSyntax.Proofs.Options.Update
import CssSyntax.Proofs.Options.Registry
import CssSyntax.Proofs.Options.Reader
import CssSyntax.Proofs.Verbatim.Joiner
import CssSyntax.Proofs.Outline.Nested
import CssSyntax.Proofs.Outline.Dump
import CssSyntax.Proofs.Token.Supply

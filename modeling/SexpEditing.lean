import SexpEditing.Catalog.Basic
import SexpEditing.Evaluator.Channel
import SexpEditing.Expr.Reader
import SexpEditing.Files.Tree
import SexpEditing.Indent.Indenter
import SexpEditing.Proofs.Document.Lines
import SexpEditing.Proofs.Sexp.Span
import SexpEditing.Proofs.Token.Matching
import SexpEditing.Proofs.Token.Order
import SexpEditing.Session.Basic
import SexpEditing.Settings.File
import SexpEditing.Symbol.Declarations
import SexpEditing.Symbol.Definitions
import SexpEditing.Text.Pattern
import SexpEditing.Proofs.Sexp.Children
import SexpEditing.Proofs.Sexp.Contexts
import SexpEditing.Proofs.Expr.Shape
import SexpEditing.Proofs.Expr.Parsing
import SexpEditing.Proofs.Expr.Units
import SexpEditing.Proofs.Expr.Agreement
import SexpEditing.Proofs.Token.Blanks
import SexpEditing.Proofs.Token.Unfinished
import SexpEditing.Proofs.Token.LineStart
import SexpEditing.Proofs.Indent.Reindent
import SexpEditing.Proofs.Indent.Edits
import SexpEditing.Proofs.Indent.Tokens
import SexpEditing.Proofs.Token.Shift
import SexpEditing.Proofs.Indent.Places
import SexpEditing.Proofs.Indent.Stable
import SexpEditing.Proofs.Indent.Idempotent
import SexpEditing.Proofs.Token.Coverage
import SexpEditing.Proofs.Evaluator.Breaks
import SexpEditing.Proofs.Evaluator.Collapse
import SexpEditing.Proofs.Expr.Corresponding
import SexpEditing.Proofs.Evaluator.Meaning
import SexpEditing.Proofs.Evaluator.Conduct
import SexpEditing.Proofs.Expr.Layout
import SexpEditing.Proofs.Expr.Rendering
import SexpEditing.Proofs.Indent.Below
import SexpEditing.Proofs.Files.Running
import SexpEditing.Proofs.Catalog.Scanning
import SexpEditing.Proofs.Catalog.Order
import SexpEditing.Proofs.Catalog.PrefixRules
import SexpEditing.Proofs.Catalog.Steps
import SexpEditing.Proofs.Catalog.Builds
import SexpEditing.Proofs.Catalog.Failures
import SexpEditing.Proofs.Expr.Delimiters
import SexpEditing.Proofs.Session.Course
import SexpEditing.Proofs.Document.History
import SexpEditing.Proofs.Indent.Aligned
import SexpEditing.Proofs.Indent.Region
import SexpEditing.Proofs.Indent.Applicable
import SexpEditing.Proofs.Indent.BreakTokens
import SexpEditing.Proofs.Sexp.Inverse
import SexpEditing.Proofs.Indent.Earlier
import SexpEditing.Proofs.Indent.ClosersInText
import SexpEditing.Proofs.Evaluator.Echo
import SexpEditing.Proofs.Catalog.DepthFirst
import SexpEditing.Proofs.Catalog.Views
import SexpEditing.Proofs.Symbol.Comments
import SexpEditing.Proofs.Evaluator.Region
import SexpEditing.Proofs.Indent.Distinct
import SexpEditing.Proofs.Symbol.Words
import SexpEditing.Proofs.Symbol.Records
import SexpEditing.Proofs.Number.Whole
import SexpEditing.Proofs.Json.Members
import SexpEditing.Proofs.Json.Grammar
import SexpEditing.Proofs.Settings.Guards
import SexpEditing.Proofs.Settings.Keys
import SexpEditing.Proofs.Settings.Merging
import SexpEditing.Proofs.Token.Queries
import SexpEditing.Proofs.Expr.Cursor

import ChapterLint.Context
import ChapterLint.Decimal.Binary64
import ChapterLint.Decimal.Shortest
import ChapterLint.Failure
import ChapterLint.ImportLine
import ChapterLint.Journal
import ChapterLint.Json.Basic
import ChapterLint.Json.Fault
import ChapterLint.Json.Numeral
import ChapterLint.Json.Record
import ChapterLint.Json.Render
import ChapterLint.Json.Scan
import ChapterLint.Lint.Builtin
import ChapterLint.Lint.Config
import ChapterLint.Lint.Diagnostic
import ChapterLint.Lint.Linter
import ChapterLint.Lint.Registry
import ChapterLint.Lint.Rule
import ChapterLint.Outline.Extractor
import ChapterLint.Outline.Symbol
import ChapterLint.Session
import ChapterLint.Span
import ChapterLint.Span.Excerpt
import ChapterLint.Text.Quoted
import ChapterLint.Text.Utf8
import ChapterLint.Tree.Fields
import ChapterLint.Tree.Kind
import ChapterLint.Tree.Node
import ChapterLint.Tree.Reader
import ChapterLint.Tree.Unfold
import ChapterLint.Tree.Value
import ChapterLint.Tree.Walk
import ChapterLint.Proofs.Lint.Index
import ChapterLint.Proofs.Lint.Recursion
import ChapterLint.Proofs.Outline.Levels
import ChapterLint.Proofs.Tree.Coverage
import ChapterLint.Proofs.Lint.Appending
import ChapterLint.Proofs.Lint.Filter
import ChapterLint.Proofs.Lint.Names
import ChapterLint.Proofs.Lint.Sublanguage
import ChapterLint.Proofs.Json.Members
import ChapterLint.Proofs.Json.RoundTrip
import ChapterLint.Proofs.Json.Zero
import ChapterLint.Proofs.Text.Utf8
import ChapterLint.Proofs.Tree.Objects
import ChapterLint.Proofs.Json.Documents
import ChapterLint.Proofs.Tree.Literals
import ChapterLint.Proofs.Tree.Document
import ChapterLint.Proofs.Tree.Rewriting
import ChapterLint.Proofs.Session.Answer
import ChapterLint.Proofs.Tree.Wording
import ChapterLint.Proofs.Session.History
import ChapterLint.Proofs.Session.Entries
import ChapterLint.Proofs.Lint.Findings
import ChapterLint.Proofs.Outline.Declarations
import ChapterLint.Proofs.Tree.Spans
import ChapterLint.Proofs.Tree.Shift
import ChapterLint.Proofs.Tree.Nesting
import ChapterLint.Proofs.Tree.Rows
import ChapterLint.Proofs.Span.Lookup
import ChapterLint.Proofs.Span.Slice
import ChapterLint.Proofs.Text.Imports
import ChapterLint.Proofs.Lint.Orders
import ChapterLint.Proofs.Outline.Unions
import ChapterLint.Proofs.Outline.Conservation
import ChapterLint.Proofs.Json.Faults
import ChapterLint.Proofs.Tree.Replacing
import ChapterLint.Proofs.Tree.Missing
import ChapterLint.Proofs.Json.Surroundings
import ChapterLint.Proofs.Lint.Chapters
import ChapterLint.Proofs.Json.Tokens
import ChapterLint.Proofs.Json.Holes
import ChapterLint.Proofs.Json.Following
import ChapterLint.Proofs.Tree.Parts
import ChapterLint.Proofs.Span.Coordinates
import ChapterLint.Proofs.Decimal.Rounding
import ChapterLint.Proofs.Json.Integers
import ChapterLint.Proofs.Lint.Indices
import ChapterLint.Proofs.Tree.Address
import ChapterLint.Proofs.Lint.Blocks

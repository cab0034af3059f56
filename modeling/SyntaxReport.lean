import SyntaxReport.Buffer.Basic
import SyntaxReport.Buffer.ChangedPart
import SyntaxReport.Buffer.Run
import SyntaxReport.Diagnostic.Basic
import SyntaxReport.Diagnostic.Form
import SyntaxReport.Diagnostic.Topmost
import SyntaxReport.Diagnostic.Walk
import SyntaxReport.Duration
import SyntaxReport.Engine
import SyntaxReport.FileSystem.Basic
import SyntaxReport.FileSystem.Directory
import SyntaxReport.FileSystem.Failure
import SyntaxReport.FileSystem.FilePath
import SyntaxReport.FileSystem.Listing
import SyntaxReport.FileSystem.Path
import SyntaxReport.Json.Form
import SyntaxReport.Json.Lexer
import SyntaxReport.Json.Parse
import SyntaxReport.Json.Render
import SyntaxReport.Json.Value
import SyntaxReport.Language.Basic
import SyntaxReport.Language.Error
import SyntaxReport.Language.Linked
import SyntaxReport.Language.Summary
import SyntaxReport.Language.Swift
import SyntaxReport.Language.Swift.Kinds
import SyntaxReport.Language.Table
import SyntaxReport.Outline.Basic
import SyntaxReport.Outline.Declaration
import SyntaxReport.Outline.Documentation
import SyntaxReport.Outline.Form
import SyntaxReport.Outline.Members
import SyntaxReport.Outline.Symbol
import SyntaxReport.Proofs.Buffer.Coherence
import SyntaxReport.Proofs.Buffer.Commute
import SyntaxReport.Proofs.Buffer.Description
import SyntaxReport.Proofs.Buffer.Failure
import SyntaxReport.Proofs.Buffer.Replacement
import SyntaxReport.Proofs.Buffer.Session
import SyntaxReport.Proofs.Buffer.Splice
import SyntaxReport.Proofs.Diagnostic.Excerpt
import SyntaxReport.Proofs.Diagnostic.Form
import SyntaxReport.Proofs.Diagnostic.Order
import SyntaxReport.Proofs.Diagnostic.Walk
import SyntaxReport.Proofs.FileSystem.Chain
import SyntaxReport.Proofs.FileSystem.Directory
import SyntaxReport.Proofs.FileSystem.Listing
import SyntaxReport.Proofs.FileSystem.Path
import SyntaxReport.Proofs.FileSystem.Place
import SyntaxReport.Proofs.FileSystem.Stand
import SyntaxReport.Proofs.FileSystem.Trail
import SyntaxReport.Proofs.Json.Exact
import SyntaxReport.Proofs.Json.RoundTrip
import SyntaxReport.Proofs.Language.Linked
import SyntaxReport.Proofs.Language.Number
import SyntaxReport.Proofs.Outline.Block
import SyntaxReport.Proofs.Outline.Body
import SyntaxReport.Proofs.Outline.Complete
import SyntaxReport.Proofs.Outline.Declaration
import SyntaxReport.Proofs.Outline.Documented
import SyntaxReport.Proofs.Outline.Form
import SyntaxReport.Proofs.Outline.Hollow
import SyntaxReport.Proofs.Outline.Iteration
import SyntaxReport.Proofs.Outline.Lines
import SyntaxReport.Proofs.Outline.Name
import SyntaxReport.Proofs.Outline.Origin
import SyntaxReport.Proofs.Outline.Pattern
import SyntaxReport.Proofs.Outline.Property
import SyntaxReport.Proofs.Outline.Traversal
import SyntaxReport.Proofs.Outline.Visible
import SyntaxReport.Proofs.Report.Account
import SyntaxReport.Proofs.Report.Attempt
import SyntaxReport.Proofs.Report.Batch
import SyntaxReport.Proofs.Report.Checkpoint
import SyntaxReport.Proofs.Report.Coherence
import SyntaxReport.Proofs.Report.Discovery
import SyntaxReport.Proofs.Report.Form
import SyntaxReport.Proofs.Report.Line
import SyntaxReport.Proofs.Report.Mean
import SyntaxReport.Proofs.Report.Merge
import SyntaxReport.Proofs.Report.Origin
import SyntaxReport.Proofs.Report.Outcomes
import SyntaxReport.Proofs.Report.Persistence
import SyntaxReport.Proofs.Report.Reentry
import SyntaxReport.Proofs.Report.Rejection
import SyntaxReport.Proofs.Report.Tally
import SyntaxReport.Proofs.Report.Time
import SyntaxReport.Proofs.Report.Workers
import SyntaxReport.Proofs.Text.Column
import SyntaxReport.Proofs.Text.Cut
import SyntaxReport.Proofs.Text.Order
import SyntaxReport.Proofs.Text.Position
import SyntaxReport.Proofs.Text.Sequence
import SyntaxReport.Proofs.Traverse
import SyntaxReport.Proofs.Tree.Address
import SyntaxReport.Proofs.Tree.Fault
import SyntaxReport.Report.Attempt
import SyntaxReport.Report.Batch
import SyntaxReport.Report.Error
import SyntaxReport.Report.File
import SyntaxReport.Report.Options
import SyntaxReport.Report.Reporter
import SyntaxReport.Report.Tally
import SyntaxReport.Report.Workers
import SyntaxReport.Text.Blank
import SyntaxReport.Text.Line
import SyntaxReport.Text.Position
import SyntaxReport.Text.Splice
import SyntaxReport.Text.Utf8
import SyntaxReport.Text.Utf8.Lemmas
import SyntaxReport.Tree.Cursor
import SyntaxReport.Tree.Node
import SyntaxReport.Tree.Preorder
import SyntaxReport.Tree.WellFormed

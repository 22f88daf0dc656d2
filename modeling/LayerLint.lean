import LayerLint.Analysis
import LayerLint.Check.Aggregate
import LayerLint.Check.Basic
import LayerLint.Check.Cycle
import LayerLint.Check.Direction
import LayerLint.Check.Naming
import LayerLint.Check.Package
import LayerLint.Classifier
import LayerLint.Cli.Args
import LayerLint.Cli.Options
import LayerLint.Cli.Run
import LayerLint.Config.Basic
import LayerLint.Config.Codec
import LayerLint.Config.Template
import LayerLint.Disk.Basic
import LayerLint.Disk.Scan
import LayerLint.Disk.Settings
import LayerLint.Glob.Basic
import LayerLint.Glob.Parser
import LayerLint.Graph.Basic
import LayerLint.Graph.Cycles
import LayerLint.Graph.Metrics
import LayerLint.Graph.Resolve
import LayerLint.Json.Basic
import LayerLint.Json.Decode
import LayerLint.Json.Printer
import LayerLint.Json.Reader
import LayerLint.Layer
import LayerLint.Main
import LayerLint.Number.Binary64
import LayerLint.Number.Decimal
import LayerLint.Number.Shortest
import LayerLint.Path
import LayerLint.Pattern.Basic
import LayerLint.Pattern.Search
import LayerLint.Proofs.Graph.Store
import LayerLint.Report.Basic
import LayerLint.Report.Dot
import LayerLint.Report.Metrics
import LayerLint.Report.Styled
import LayerLint.Report.Text
import LayerLint.Rule
import LayerLint.Secret
import LayerLint.Severity
import LayerLint.Source.Export
import LayerLint.Source.Import
import LayerLint.Source.Unit
import LayerLint.Text.Alphabetic
import LayerLint.Text.CaseTable
import LayerLint.Text.Class
import LayerLint.Text.Lowercase
import LayerLint.Text.Ranges
import LayerLint.Text.Split
import LayerLint.Toml.Basic
import LayerLint.Toml.Parser
import LayerLint.Toml.Quoted
import LayerLint.Toml.Scalar
import LayerLint.TypeScript.Expression
import LayerLint.TypeScript.Function
import LayerLint.TypeScript.Grammar
import LayerLint.TypeScript.Input
import LayerLint.TypeScript.Parser
import LayerLint.TypeScript.Statement
import LayerLint.TypeScript.Tree
import LayerLint.Violation
import LayerLint.Proofs.Graph.Walk
import LayerLint.Proofs.Graph.Cycles
import LayerLint.Proofs.Graph.Order
import LayerLint.Proofs.Graph.Recursion
import LayerLint.Proofs.Analysis.Rules
import LayerLint.Proofs.Graph.Build
import LayerLint.Proofs.Analysis.Access
import LayerLint.Proofs.Analysis.Units
import LayerLint.Proofs.Analysis.Locality
import LayerLint.Proofs.Report.Verdict
import LayerLint.Proofs.Cli.Check
import LayerLint.Proofs.Text.Split
import LayerLint.Proofs.Disk.Tree
import LayerLint.Proofs.Disk.Scan
import LayerLint.Proofs.Cli.Session
import LayerLint.Proofs.Report.Drawing
import LayerLint.Proofs.Report.Flagged
import LayerLint.Proofs.Text.LineEnds
import LayerLint.Proofs.Pattern.Reach
import LayerLint.Proofs.Pattern.LineEnds
import LayerLint.Proofs.Analysis.LineEnds
import LayerLint.Proofs.Json.Grammar
import LayerLint.Proofs.Json.Numbers
import LayerLint.Proofs.Json.Printing
import LayerLint.Proofs.Json.Records
import LayerLint.Proofs.Report.Parts
import LayerLint.Proofs.Report.Document
import LayerLint.Proofs.Config.RoundTrip
import LayerLint.Proofs.Config.Defaults
import LayerLint.Proofs.Path.Join
import LayerLint.Proofs.Check.Aggregate
import LayerLint.Proofs.Check.Targets
import LayerLint.Proofs.Graph.Specifiers
import LayerLint.Proofs.Pattern.Borders
import LayerLint.Proofs.Pattern.Words
import LayerLint.Proofs.Source.Statements
import LayerLint.Proofs.Source.Comments
import LayerLint.Proofs.Graph.Closings
import LayerLint.Proofs.Pattern.Lines
import LayerLint.Proofs.Source.Exports
import LayerLint.Proofs.Source.Headings
import LayerLint.Proofs.Source.ExportListing
import LayerLint.Proofs.Source.Anonymous
import LayerLint.Proofs.Source.ExportLineEnds
import LayerLint.Proofs.Classifier.Join
import LayerLint.Proofs.Report.Partition
import LayerLint.Proofs.Report.Listing
import LayerLint.Proofs.Check.Renaming
import LayerLint.Proofs.Check.Naming
import LayerLint.Proofs.Check.Imports
import LayerLint.Proofs.Check.Package
import LayerLint.Proofs.Pattern.Language
import LayerLint.Proofs.Secret.Kinds
import LayerLint.Proofs.Secret.Scan
import LayerLint.Proofs.Check.Policies
import LayerLint.Proofs.Glob.Language
import LayerLint.Proofs.Disk.Selection
import LayerLint.Proofs.Graph.Views
import LayerLint.Proofs.Report.Metrics
import LayerLint.Proofs.Report.Flow
import LayerLint.Proofs.Report.Counts
import LayerLint.Proofs.Report.Colors
import LayerLint.Proofs.Graph.Loop
import LayerLint.Proofs.Source.Genuine
import LayerLint.Proofs.TypeScript.Walk
import LayerLint.Proofs.Config.Severities

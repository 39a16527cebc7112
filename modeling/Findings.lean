import Findings.Binary64
import Findings.Bundle.Basic
import Findings.Bundle.Diagnostic
import Findings.Bundle.Enrichment
import Findings.Bundle.Error
import Findings.Bundle.FileTable
import Findings.Bundle.Filter
import Findings.Bundle.Finding
import Findings.Bundle.Identity
import Findings.Bundle.Location
import Findings.Bundle.Step
import Findings.CommandLine.Inputs
import Findings.CommandLine.Invocation
import Findings.CommandLine.Option
import Findings.CommandLine.Run
import Findings.CommandLine.Settings
import Findings.CommandLine.Usage
import Findings.Config.Basic
import Findings.Config.Error
import Findings.Config.Glob
import Findings.Config.SkipList
import Findings.Decimal.Shortest
import Findings.Digest.Basic
import Findings.Digest.Xxh3
import Findings.Entries
import Findings.FilePath
import Findings.FileSystem
import Findings.Json.Basic
import Findings.Json.Decode
import Findings.Json.Number
import Findings.Json.Printer
import Findings.Json.Reader
import Findings.Json.Selection
import Findings.Log
import Findings.Main
import Findings.Proofs.Bundle.Accounting
import Findings.Proofs.Bundle.Enrichment
import Findings.Proofs.Bundle.Entry
import Findings.Proofs.Bundle.Frame
import Findings.Proofs.Bundle.Shape
import Findings.Proofs.Bundle.Shift
import Findings.Proofs.Digest
import Findings.Proofs.Entries
import Findings.Proofs.FileSystem
import Findings.Proofs.Json.Number
import Findings.Proofs.Json.Parsed
import Findings.Proofs.Json.RoundTrip
import Findings.Proofs.Json.Tree
import Findings.Proofs.Result
import Findings.Proofs.Source.Cache
import Findings.Proofs.Source.File
import Findings.Proofs.Suppression.Addition
import Findings.Proofs.Suppression.Candidates
import Findings.Proofs.Suppression.Comment
import Findings.Proofs.Suppression.Delimiters
import Findings.Proofs.Suppression.Record
import Findings.Proofs.Suppression.Scanner
import Findings.Proofs.Text
import Findings.Report.Formatter
import Findings.Report.Layout
import Findings.Report.Severity
import Findings.Report.Sink
import Findings.Report.Stats
import Findings.Source.Cache
import Findings.Source.File
import Findings.Suppression.Comment
import Findings.Suppression.File
import Findings.Suppression.Marker
import Findings.Suppression.Record
import Findings.Suppression.Store
import Findings.Text.Blank
import Findings.Text.Hex
import Findings.Text.Lines
import Findings.Text.Search
import Findings.Text.Visible
import Findings.Toml.Reader
import Findings.Toml.Scalar
import Findings.Toml.Value
import Findings.Proofs.Bundle.Filtering
import Findings.Proofs.Report.Writing
import Findings.Proofs.Suppression.Carry
import Findings.Proofs.FilePath
import Findings.Proofs.Report.Promotion
import Findings.Proofs.Json.Decode
import Findings.Proofs.Json.Encode
import Findings.Proofs.Bundle.Decoding
import Findings.Proofs.Bundle.Encoding
import Findings.Proofs.Bundle.Agreement
import Findings.Proofs.Bundle.Retention
import Findings.Proofs.Report.Verdict
import Findings.Proofs.FileSystem.Agree
import Findings.Proofs.FileSystem.Rewrite
import Findings.Proofs.Suppression.Agree
import Findings.Proofs.Suppression.Runs
import Findings.Proofs.Bundle.InPlace
import Findings.Proofs.Report.Exclusion
import Findings.Proofs.Report.Comparison
import Findings.Proofs.Binary64
import Findings.Proofs.Decimal
import Findings.Proofs.Json.Float
import Findings.Proofs.Bundle.Plain
import Findings.Proofs.Report.Counting
import Findings.Proofs.Report.Sink
import Findings.Proofs.Report.Rendering
import Findings.Proofs.Report.Independence
import Findings.Proofs.Report.Blocks
import Findings.Proofs.CommandLine.Totals
import Findings.Proofs.Bundle.Rereading
import Findings.Proofs.Report.Plain
import Findings.Proofs.Report.Repetition
import Findings.Proofs.Suppression.Coherence
import Findings.Proofs.FileSystem.Spelling
import Findings.Proofs.Source.Lookups
import Findings.Proofs.Report.Turns
import Findings.Proofs.Report.Accounting
import Findings.Proofs.Suppression.Shift
import Findings.Proofs.Suppression.Marker
import Findings.Proofs.Suppression.InComment
import Findings.Proofs.Suppression.Found
import Findings.Proofs.Bundle.Anchor
import Findings.Proofs.Suppression.Rewriting
import Findings.Proofs.Suppression.Changes
import Findings.Proofs.Bundle.Refiltering
import Findings.Proofs.Report.Capacity
import Findings.Proofs.Source.Offsets
import Findings.Proofs.Report.Caret
import Findings.Proofs.Report.Resources
import Findings.Proofs.Report.Listing
import Findings.Proofs.FilePath.LastName
import Findings.Proofs.Suppression.Scope

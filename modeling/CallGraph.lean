import CallGraph.Source.Location
import CallGraph.Source.Span
import CallGraph.Value
import CallGraph.Dictionary
import CallGraph.Diagnostic.Fault
import CallGraph.Token.Scanner
import CallGraph.Parser.Machine
import CallGraph.Graph.Stage
import CallGraph.Graph.Order
import CallGraph.Graph.Dot
import CallGraph.Unit.Draft
import CallGraph.Service.Schedule
import CallGraph.Service.Reportable
import CallGraph.CommandLine.Argument
import CallGraph.CommandLine.Run
import CallGraph.CommandLine.Verbosity
import CallGraph.Main
import CallGraph.Proofs.Parser.Strict
import CallGraph.Proofs.Parser.Recovery
import CallGraph.Proofs.Unit.Accounting
import CallGraph.Proofs.Graph.Relation
import CallGraph.Proofs.Graph.Search
import CallGraph.Proofs.Graph.Circle
import CallGraph.Proofs.Graph.Cycle
import CallGraph.Proofs.Graph.Placement
import CallGraph.Proofs.Graph.Schedule
import CallGraph.Proofs.Graph.Order
import CallGraph.Proofs.Graph.Relaxed
import CallGraph.Proofs.Lint.Report
import CallGraph.Proofs.Unit.Findings
import CallGraph.Proofs.Token.Layout
import CallGraph.Proofs.Grammar.Anchor
import CallGraph.Proofs.Parser.Handover
import CallGraph.Proofs.Unit.Reading
import CallGraph.Proofs.Lint.Modes
import CallGraph.Proofs.Unit.Spans
import CallGraph.Proofs.Unit.Distinct
import CallGraph.Proofs.Lint.Position
import CallGraph.Proofs.Lint.Once
import CallGraph.Proofs.Parser.Consistency
import CallGraph.Proofs.Parser.Budget
import CallGraph.Proofs.Parser.Expectation
import CallGraph.Proofs.Token.Nesting
import CallGraph.Proofs.Token.Tiling
import CallGraph.Proofs.Unit.Execution
import CallGraph.Proofs.Unit.Excerpt
import CallGraph.Proofs.Lint.Nesting
import CallGraph.Proofs.Parser.Termination
import CallGraph.Proofs.Token.Spacing
import CallGraph.Proofs.Unit.Isolation
import CallGraph.Proofs.Service.Classification
import CallGraph.Proofs.Graph.Canonical
import CallGraph.Proofs.Graph.Turns
import CallGraph.Proofs.Graph.Counters
import CallGraph.Proofs.Token.Payload
import CallGraph.Proofs.CommandLine.Formats
import CallGraph.Proofs.Graph.Lookup
import CallGraph.Proofs.Parser.Rationing
import CallGraph.Proofs.Token.Spelling
import CallGraph.Proofs.Token.Numeral
import CallGraph.Proofs.Unit.Options
import CallGraph.Proofs.Unit.Address
import CallGraph.Proofs.Unit.Timing
import CallGraph.Proofs.Unit.Naming

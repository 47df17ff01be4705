import Conformance.Application
import Conformance.BuildInfo
import Conformance.Catalog.Basic
import Conformance.Catalog.Entry
import Conformance.Catalog.Loading
import Conformance.Catalog.Reading
import Conformance.Check.Definition
import Conformance.Check.Log
import Conformance.Check.Running
import Conformance.Check.State
import Conformance.Check.Status
import Conformance.CommandLine.Options
import Conformance.CommandLine.Reading
import Conformance.DataFormat
import Conformance.Failure
import Conformance.Files.Tree
import Conformance.Finding
import Conformance.Group.Running
import Conformance.Json.Fields
import Conformance.Json.Literal
import Conformance.Json.Printer
import Conformance.Json.Reader
import Conformance.Json.Token
import Conformance.Json.Value
import Conformance.Kernel.Node
import Conformance.Kernel.Taint
import Conformance.Kernel.TaintCheck
import Conformance.Keyed
import Conformance.Label.Expr
import Conformance.Label.Filter
import Conformance.Label.Parser
import Conformance.Label.Token
import Conformance.Main
import Conformance.Number.Rounding
import Conformance.Number.Unsigned
import Conformance.Program
import Conformance.Proofs.Catalog.Documents
import Conformance.Proofs.Catalog.History
import Conformance.Proofs.Check.Building
import Conformance.Proofs.Check.Callbacks
import Conformance.Proofs.Check.Excuses
import Conformance.Proofs.Check.Phases
import Conformance.Proofs.Check.Stamping
import Conformance.Proofs.Check.TimeLimit
import Conformance.Proofs.Check.Verdicts
import Conformance.Proofs.Group.Attempts
import Conformance.Proofs.Group.Attribution
import Conformance.Proofs.Group.Calls
import Conformance.Proofs.Group.Candour
import Conformance.Proofs.Group.Course
import Conformance.Proofs.Group.Coverage
import Conformance.Proofs.Group.CutOff
import Conformance.Proofs.Group.Failures
import Conformance.Proofs.Group.Handover
import Conformance.Proofs.Group.Headway
import Conformance.Proofs.Group.Interruption
import Conformance.Proofs.Group.Iterations
import Conformance.Proofs.Group.Labelling
import Conformance.Proofs.Group.Lifecycle
import Conformance.Proofs.Group.Looks
import Conformance.Proofs.Group.Misbuilt
import Conformance.Proofs.Group.Order
import Conformance.Proofs.Group.Parts
import Conformance.Proofs.Group.Policy
import Conformance.Proofs.Group.Propagation
import Conformance.Proofs.Group.Ranks
import Conformance.Proofs.Group.Rounds
import Conformance.Proofs.Group.Selection
import Conformance.Proofs.Group.Within
import Conformance.Proofs.Json.Fields
import Conformance.Proofs.Json.Literals
import Conformance.Proofs.Json.RoundTrip
import Conformance.Proofs.Json.Tokens
import Conformance.Proofs.Kernel.Bits
import Conformance.Proofs.Kernel.Decoding
import Conformance.Proofs.Kernel.Verdict
import Conformance.Proofs.Keyed
import Conformance.Proofs.Label.Acceptance
import Conformance.Proofs.Label.Calls
import Conformance.Proofs.Label.Completeness
import Conformance.Proofs.Label.Composition
import Conformance.Proofs.Label.Depth
import Conformance.Proofs.Label.Descent
import Conformance.Proofs.Label.Drafts
import Conformance.Proofs.Label.Enclosure
import Conformance.Proofs.Label.Faults
import Conformance.Proofs.Label.Grammar
import Conformance.Proofs.Label.Reading
import Conformance.Proofs.Label.Seams
import Conformance.Proofs.Label.Spelling
import Conformance.Proofs.Label.Viability
import Conformance.Proofs.Program.Effect
import Conformance.Proofs.Program.Reach
import Conformance.Proofs.Program.Trail
import Conformance.Proofs.Render.Junit
import Conformance.Proofs.Render.Shown
import Conformance.Proofs.Render.Terminal
import Conformance.Proofs.Report.Aggregation
import Conformance.Proofs.Report.Findings
import Conformance.Proofs.Report.GroupRecords
import Conformance.Proofs.Report.Recording
import Conformance.Proofs.Report.RoundTrip
import Conformance.Proofs.Run.Awaiting
import Conformance.Proofs.Run.Bookkeeping
import Conformance.Proofs.Run.Books
import Conformance.Proofs.Run.Calm
import Conformance.Proofs.Run.Causes
import Conformance.Proofs.Run.Clockwork
import Conformance.Proofs.Run.ExitCode
import Conformance.Proofs.Run.FailedChecks
import Conformance.Proofs.Run.Finality
import Conformance.Proofs.Run.GroupChecks
import Conformance.Proofs.Run.Hiring
import Conformance.Proofs.Run.InTurn
import Conformance.Proofs.Run.Inbox
import Conformance.Proofs.Run.Interleaving
import Conformance.Proofs.Run.Interrupts
import Conformance.Proofs.Run.Isolation
import Conformance.Proofs.Run.Leftovers
import Conformance.Proofs.Run.Listening
import Conformance.Proofs.Run.Listing
import Conformance.Proofs.Run.Marks
import Conformance.Proofs.Run.Origins
import Conformance.Proofs.Run.Passing
import Conformance.Proofs.Run.Records
import Conformance.Proofs.Run.Refinement
import Conformance.Proofs.Run.Rows
import Conformance.Proofs.Run.Scheduling
import Conformance.Proofs.Run.StaleCursors
import Conformance.Proofs.Run.Standing
import Conformance.Proofs.Run.StopSafety
import Conformance.Proofs.Run.Tallies
import Conformance.Proofs.Run.Totals
import Conformance.Proofs.Run.Turns
import Conformance.Proofs.Run.Views
import Conformance.Proofs.Run.Workers
import Conformance.Proofs.Settings.Precedence
import Conformance.Proofs.Text.ColorCodes
import Conformance.Proofs.Text.Runs
import Conformance.Proofs.Time.Dates
import Conformance.Proofs.Time.Rfc3339
import Conformance.Proofs.Xml.Grammar
import Conformance.Proofs.Xml.Unambiguous
import Conformance.Proofs.Xml.Unescaping
import Conformance.Render.Format
import Conformance.Render.Junit
import Conformance.Render.Terminal
import Conformance.Report.Basic
import Conformance.Report.Json
import Conformance.Report.Recording
import Conformance.Report.Summary
import Conformance.Run.Action
import Conformance.Run.Engine
import Conformance.Run.Orchestration
import Conformance.Run.Orchestrator
import Conformance.Run.Request
import Conformance.Run.Schedule
import Conformance.Run.Signal
import Conformance.Script
import Conformance.Session
import Conformance.Settings.Basic
import Conformance.Settings.File
import Conformance.Settings.Layers
import Conformance.Text.Alphanumeric
import Conformance.Text.Blank
import Conformance.Text.Columns
import Conformance.Text.Lines
import Conformance.Text.Quoted
import Conformance.Text.Ranges
import Conformance.Text.Utf8
import Conformance.Text.Visible
import Conformance.Time.Instant
import Conformance.Time.Rfc3339
import Conformance.Time.Span
import Conformance.Time.Stamp
import Conformance.Toml.Quoted
import Conformance.Toml.Reader
import Conformance.Toml.Scalar
import Conformance.Toml.Table
import Conformance.Toml.Token
import Conformance.Toml.Value
import Conformance.Xml.Escape
import Conformance.Xml.Node

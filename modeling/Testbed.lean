import Testbed.Activity
import Testbed.CommandLine.Arguments
import Testbed.CommandLine.Key
import Testbed.CommandLine.Overrides
import Testbed.Config
import Testbed.Config.Loading
import Testbed.Data.Json.Reader
import Testbed.Data.Json.Writer
import Testbed.Data.Value
import Testbed.Data.Yaml.Cursor
import Testbed.Data.Yaml.Document
import Testbed.Data.Yaml.Fault
import Testbed.Data.Yaml.Lexeme
import Testbed.Data.Yaml.Node
import Testbed.Data.Yaml.Scalar
import Testbed.Data.Yaml.Token
import Testbed.Decimal.Binary
import Testbed.Decimal.Layout
import Testbed.Decimal.Nearest
import Testbed.Decimal.Numeral
import Testbed.Decimal.Shortest
import Testbed.Duration
import Testbed.Files
import Testbed.Job.Child
import Testbed.Job.Execution
import Testbed.Job.Termination
import Testbed.Journal
import Testbed.Main
import Testbed.Path
import Testbed.Policy
import Testbed.Progress
import Testbed.Registry
import Testbed.Report.Basic
import Testbed.Report.Summary
import Testbed.Run.Attempt
import Testbed.Run.Coordinator
import Testbed.Run.Execution
import Testbed.Run.State
import Testbed.Runner.Basic
import Testbed.Runner.Cargo
import Testbed.Runner.Catalogue
import Testbed.Runner.Command
import Testbed.Runner.Rehearsed
import Testbed.Runner.Tool
import Testbed.Session.Basic
import Testbed.Session.Streams
import Testbed.Surroundings
import Testbed.Text.Blank
import Testbed.Text.Digit
import Testbed.Text.Hex
import Testbed.Text.Lines
import Testbed.Text.Printable
import Testbed.Text.Quoted
import Testbed.Text.Search
import Testbed.Text.Utf8
import Testbed.Validation.Issue
import Testbed.Validation.Scalar
import Testbed.Proofs.Clock.Durations
import Testbed.Proofs.Clock.Earliest
import Testbed.Proofs.Clock.Exact
import Testbed.Proofs.Clock.Grammar
import Testbed.Proofs.Clock.Instant
import Testbed.Proofs.Clock.Packing
import Testbed.Proofs.Clock.Rounding
import Testbed.Proofs.CommandLine.Merging
import Testbed.Proofs.CommandLine.Options
import Testbed.Proofs.Config.Checks
import Testbed.Proofs.Config.Defects
import Testbed.Proofs.Config.Limits
import Testbed.Proofs.Config.Loading
import Testbed.Proofs.Config.Validation
import Testbed.Proofs.Data.Entries
import Testbed.Proofs.Data.Members
import Testbed.Proofs.Registry
import Testbed.Proofs.Report.Renderings
import Testbed.Proofs.Run.Budget
import Testbed.Proofs.Run.Cancelled
import Testbed.Proofs.Run.Capacity
import Testbed.Proofs.Run.Confinement
import Testbed.Proofs.Run.FailFast
import Testbed.Proofs.Run.Halt
import Testbed.Proofs.Run.Invocations
import Testbed.Proofs.Run.Isolation
import Testbed.Proofs.Run.Likeness
import Testbed.Proofs.Run.Lineup
import Testbed.Proofs.Run.Liveness
import Testbed.Proofs.Run.Mishaps
import Testbed.Proofs.Run.Notes
import Testbed.Proofs.Run.Processes
import Testbed.Proofs.Run.Record
import Testbed.Proofs.Run.Replies
import Testbed.Proofs.Run.Reports
import Testbed.Proofs.Run.Retries
import Testbed.Proofs.Run.Skips
import Testbed.Proofs.Run.Slots
import Testbed.Proofs.Run.Steps
import Testbed.Proofs.Run.Stream
import Testbed.Proofs.Runner.Alone
import Testbed.Proofs.Runner.Capture
import Testbed.Proofs.Runner.CommandLines
import Testbed.Proofs.Runner.Ensemble
import Testbed.Proofs.Runner.Executions
import Testbed.Proofs.Runner.Lookup
import Testbed.Proofs.Runner.Output
import Testbed.Proofs.Runner.Readiness
import Testbed.Proofs.Runner.Teardown
import Testbed.Proofs.Runner.Termination
import Testbed.Proofs.Runner.Timeliness
import Testbed.Proofs.Runner.Timeouts
import Testbed.Proofs.Session.Codes
import Testbed.Proofs.Session.Output

import Testbed.Data.Value
import Testbed.Report.Basic
import Testbed.Text.Lines

/-!
# Report renderings

Three views of a report: one line with the counts, a summary of several lines that shows the end of
the output of every component that did not pass, and a document for other programs.
-/

namespace Testbed

/-- The mark in front of a component. -/
def Status.symbol : Status → String
  | .passed => "✓"
  | .failed => "✗"
  | .errored => "!"
  | .skipped => "-"
  | .other _ => "?"

/-- A status at the beginning of a sentence. -/
def Status.heading : Status → String
  | .passed => "Passed"
  | .failed => "Failed"
  | .errored => "Errored"
  | .skipped => "Skipped"
  | .other label => label

/-- The verdict as the counts line shows it. -/
def Verdict.banner : Verdict → String
  | .success => "SUCCESS"
  | .failure => "FAILURE"

/-- A component with its status and the time it took. -/
def statusLine (symbol component label : String) (seconds : Float) : String :=
  symbol ++ " " ++ component ++ ": " ++ label ++ " (" ++ Decimal.fixedText seconds ++ "s)"

/-- The statuses other than passed, in the order in which the summary closes with them. -/
def closingStatuses : List Status :=
  [.failed, .errored, .skipped]

/-- The number of lines of output that the summary shows. -/
def outputTail : Nat := 20

namespace Outcome

def line (o : Outcome) : String :=
  statusLine o.status.symbol o.component o.status.label o.duration.toFloat

def attemptLines (o : Outcome) : List String :=
  if 1 < o.attempts then ["  Attempts: " ++ toString o.attempts] else []

/-- The end of the output of a component that did not pass. -/
def outputLines (o : Outcome) : List String :=
  let output := o.diagnostics.getD ""
  if o.status = .passed ∨ output = "" then []
  else
    "  Output (last lines):" ::
      (Text.lastOf outputTail (Text.splitLines output)).map ("    " ++ ·)

def summaryLines (o : Outcome) : List String :=
  o.line :: (o.attemptLines ++ o.outputLines)

end Outcome

namespace Report

def rule : String :=
  String.ofList (List.replicate 80 '=')

/-- The closing line of a status, absent if no component has it. -/
def closingLines (r : Report) (status : Status) : List String :=
  match r.componentsWith status with
  | [] => []
  | names => [status.heading ++ ": " ++ ", ".intercalate names]

/-- The summary of several lines. -/
def summaryLines (r : Report) : List String :=
  [rule, "Test Results Summary:", rule] ++ r.outcomes.flatMap Outcome.summaryLines ++
    closingStatuses.flatMap r.closingLines

/-- The counts and the verdict on one line. -/
def countsLine (r : Report) : String :=
  "passed=" ++ toString (r.count .passed) ++ " failed=" ++ toString (r.count .failed) ++
    " errored=" ++ toString (r.count .errored) ++ " skipped=" ++ toString (r.count .skipped) ++
    " verdict=" ++ r.verdict.banner

open Data in
/-- An outcome field by field. -/
def outcomeDocument (o : Outcome) : Value :=
  .map [(.text "component", .text o.component),
    (.text "status", .text o.status.label),
    (.text "duration", match o.duration with
      | .whole n => .int n
      | .real x => .float x),
    (.text "attempts", .int o.attempts),
    (.text "diagnostics", match o.diagnostics with
      | none => .null
      | some output => .text output)]

open Data in
/-- The report as a document. -/
def document (r : Report) : Value :=
  .map [(.text "total", .int r.outcomes.length),
    (.text "passed", .int (r.count .passed)),
    (.text "failed", .int (r.count .failed)),
    (.text "errored", .int (r.count .errored)),
    (.text "skipped", .int (r.count .skipped)),
    (.text "verdict", .text r.verdict.label),
    (.text "results", .list (r.outcomes.map outcomeDocument))]

end Report

end Testbed

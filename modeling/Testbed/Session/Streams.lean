import Testbed.CommandLine.Arguments
import Testbed.Data.Json.Writer
import Testbed.Session.Basic
import Testbed.Text.Utf8

/-!
# Streams of a session

What a session writes: the log on the stream for errors, and on the standard output the output of
the processes that is passed on and, at the end, the report.  Progress goes to the standard output
unless a document is asked for.
-/

namespace Testbed

/-- How a trace ends. -/
def Failure.trace (f : Failure) : String :=
  "EXCEPTION " ++ f.kind ++ ": " ++ f.text

/-- A line of the log, with the trace of a failure after it; `stamp` tells the time. -/
def LogLine.shown (stamp : String) (line : LogLine) : List String :=
  (stamp ++ " - " ++ line.channel.name ++ " - " ++ line.level.label ++ " - " ++ line.text) ::
    (line.trace.map Failure.trace).toList

/-- What the program writes. -/
structure Display where
  /-- How the report is written; progress goes to the standard output if it is a text. -/
  format : Option CommandLine.Format
  /-- The log holds what helps with debugging. -/
  verbose : Bool
  stamp : String

def CommandLine.Arguments.display (a : CommandLine.Arguments) (stamp : String) : Display where
  format := a.format
  verbose := a.verbose
  stamp := stamp

namespace Display

def shows (d : Display) (level : Level) : Bool :=
  level ≠ .debug || d.verbose

/-- The part of a note that goes to the stream for errors. -/
def errorText (d : Display) : Note → String
  | .log line => if d.shows line.level then CommandLine.ofLines (line.shown d.stamp) else ""
  | .progress e => if d.format = some .text then "" else e.line ++ "\n"
  | _ => ""

/-- The part of a note that goes to the standard output. -/
def outputBytes (d : Display) : Note → List UInt8
  | .progress e => if d.format = some .text then Text.encode (e.line ++ "\n") else []
  | .output bytes => bytes
  | _ => []

/-- The report as it is written at the end. -/
def reportText (d : Display) (r : Report) : String :=
  (if d.format = some .json then Data.Json.indented.write r.document else r.countsLine) ++ "\n"

def closingText (d : Display) : Conclusion → String
  | .report r => d.reportText r
  | _ => ""

end Display

namespace Session

/-- Everything on the stream for errors. -/
def errorText (s : Session) (d : Display) : String :=
  String.join (s.journal.map fun e ↦ d.errorText e.note)

/-- Everything on the standard output. -/
def outputBytes (s : Session) (d : Display) : List UInt8 :=
  s.journal.flatMap (fun e ↦ d.outputBytes e.note) ++ Text.encode (d.closingText s.conclusion)

end Session

end Testbed

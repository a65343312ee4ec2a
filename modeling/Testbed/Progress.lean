import Testbed.Report.Summary

/-!
# Progress

While a run is underway, an event tells that a component was started or that it has finished.
-/

namespace Testbed

inductive Phase where
  | started
  | finished
deriving DecidableEq, Repr

def Phase.label : Phase → String
  | .started => "started"
  | .finished => "finished"

structure Event where
  component : String
  phase : Phase
  status : Option Status := none
  elapsed : Float := 0.0
  attempt : Int := 1

namespace Event

/-- The label of the status, which may be missing. -/
def statusLabel (e : Event) : String :=
  match e.status with
  | none => Data.Value.null.shown
  | some status => status.label

def symbol (e : Event) : String :=
  (e.status.getD (.other "")).symbol

/-- One line per event; a further attempt is numbered when it starts. -/
def line (e : Event) : String :=
  match e.phase with
  | .started =>
    "▶ " ++ e.component ++ ": running" ++
      (if 1 < e.attempt then " (attempt " ++ toString e.attempt ++ ")" else "")
  | .finished => statusLine e.symbol e.component e.statusLabel e.elapsed

/-- Every field of an event, for the debugging log. -/
def detail (e : Event) : String :=
  "ProgressEvent(component=" ++ Text.quoted e.component ++ ", phase=" ++
    Text.quoted e.phase.label ++ ", status=" ++
    (match e.status with
      | none => Data.Value.null.shown
      | some status => Text.quoted status.label) ++
    ", elapsed=" ++ Decimal.shortestText e.elapsed ++ ", attempt=" ++ toString e.attempt ++ ")"

end Event

end Testbed

import Testbed.Job.Execution
import Testbed.Runner.Basic
import Testbed.Surroundings

/-!
# Runners of tools

A tool is a command line per component that is executed as a process.  The process ends with a code
and an output, from which the tool judges the component.  A process that the system refuses to start
means that the component could not be tested; any other failure is passed on.
-/

namespace Testbed

structure Tool where
  commandLine : (component : String) → List String
  directory : Option Path
  /-- Environment variables that are set for the process. -/
  environment : List (String × String)
  /-- How the tool is named when it cannot be started. -/
  name : String
  judge : (code : Int) → (output : String) → Status
  /-- What is noted when the process has ended. -/
  endNotes : (component : String) → (code : Int) → List Note

namespace Tool

/-- An invocation of a tool: its process, and what is known about it. -/
structure Invocation where
  component : String
  capture : Bool
  execution : Job.Execution

def launch (t : Tool) (around : Surroundings) (component : String) : Launch where
  arguments := t.commandLine component
  directory := t.directory.map Path.text
  environment :=
    if t.environment.isEmpty then none else some (around.environmentWith t.environment)

/-- What a finished process means. -/
def ending (t : Tool) (capture : Bool) : Job.Result → Ending
  | .finished code output => .answered {
      status := t.judge code output
      diagnostics := if capture then some output else none }
  | .refused failure =>
    if failure.system then .answered {
      status := .errored
      diagnostics := some ("Failed to start " ++ t.name ++ ": " ++ failure.text) }
    else .raised failure
  | .interrupted => .interrupted

/-- The notes that follow the end of a process. -/
def notesAfter (t : Tool) (component : String) :
    Activity.Next Job.Execution Job.Result → List Note
  | .ends (.finished code _) => t.endNotes component code
  | _ => []

/-- Turns what the process does into what the invocation does. -/
def reply (t : Tool) (component : String) (capture : Bool)
    (r : Reply Job.Execution Job.Result) : Reply Invocation Ending where
  notes := r.notes ++ t.notesAfter component r.next
  next := r.next.map (fun execution ↦ { component, capture, execution }) (t.ending capture)

/-- Starts the `n`-th process. -/
def start (t : Tool) (around : Surroundings) (n : Nat) (component : String) (capture : Bool) :
    Reply Invocation Ending :=
  t.reply component capture
    (Job.Execution.start (around.behaviour n) (t.launch around component) (!capture))

def resume (t : Tool) (i : Invocation) (wake : Wake) : Reply Invocation Ending :=
  t.reply i.component i.capture (i.execution.resume wake)

/-- The runner of a tool; its invocations share the number of processes started so far. -/
def runner (t : Tool) (around : Surroundings) : Runner Nat Invocation where
  start n _ component capture := (n + 1, t.start around n component capture)
  resume n _ i wake := (n, t.resume i wake)
  turns := around.pieces + 6

end Tool

/-- Why a tool cannot be run at all. -/
structure Unavailable where
  message : String
deriving DecidableEq, Repr

end Testbed

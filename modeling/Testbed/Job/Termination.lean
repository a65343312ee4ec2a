import Testbed.Activity
import Testbed.Job.Child

/-!
# Termination

A process is asked to end by a termination signal.  If it still runs when the grace period is over,
it is killed.  An interruption gives the termination up at once; and where an interruption is pending
already, the end of the grace period is taken for another one.
-/

namespace Testbed.Job

/-- How long a process may take to obey the termination signal. -/
def gracePeriod : Float := 5.0

def terminatingNote (c : Child) : Note :=
  .info .process ("Terminating process " ++ toString c.behaviour.id)

def killingNote (c : Child) : Note :=
  .warning .process ("Process " ++ toString c.behaviour.id ++ " ignored SIGTERM, killing it")

/-- Sends the termination signal and sets the alarms: for the exit, and for the end of the grace
period. -/
def askToEnd (c : Child) (grace : Float) : Child × List (Nat × Float) :=
  let (c, exits) := c.terminate
  let (c, awaited) := c.await
  (c, exits ++ (Alarm.grace.number, grace) :: awaited)

/-- What a termination waits for. -/
inductive Termination where
  | asked (child : Child)
  | killed (child : Child)

/-- How a termination ends. -/
inductive Termination.Result where
  | exited (code : Int)
  | interrupted
deriving DecidableEq, Repr

namespace Termination

/-- Ends if the process has exited, and goes on waiting for its exit otherwise. -/
def awaitExit (state : Child → Termination) (c : Child) (keep : List Nat)
    (alarms : List (Nat × Float)) : Activity.Next Termination Result :=
  match c.code with
  | some code => .ends (.exited code)
  | none => .waits (state c) keep alarms

/-- Terminates a process that has not exited. -/
def start (c : Child) (grace : Float) : Reply Termination Result :=
  match c.code with
  | some code => { next := .ends (.exited code) }
  | none =>
    let (child, alarms) := askToEnd c grace
    { notes := [terminatingNote c, .terminate], next := awaitExit .asked child exitAlarms alarms }

/-- Goes on with a termination; `pending` says that the activity which terminates the process is
itself being interrupted. -/
def resume (t : Termination) (wake : Wake) (pending : Bool := false) : Reply Termination Result :=
  if wake.interrupted then { next := .ends .interrupted }
  else
    match t with
    | .asked c =>
      let c := c.hear wake.rung
      if wake.rung.contains Alarm.grace.number then
        if pending then { next := .ends .interrupted }
        else
          let (child, alarms) := c.kill
          { notes := [killingNote c, .kill], next := awaitExit .killed child exitAlarms alarms }
      else { next := awaitExit .asked c (Alarm.grace.number :: exitAlarms) [] }
    | .killed c => { next := awaitExit .killed (c.hear wake.rung) exitAlarms [] }

end Termination

end Testbed.Job

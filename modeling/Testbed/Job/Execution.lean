import Testbed.Job.Termination
import Testbed.Text.Utf8

/-!
# Execution of a process

A process is executed by reading all its output and then awaiting its exit.  The output is passed on
as it arrives if that is wanted.  An interruption terminates the process; it is then not waited for
beyond the grace period, nor is it killed.
-/

namespace Testbed.Job

/-- The most bytes that are read at once. -/
def readLimit : Nat := 64 * 1024

/-- The pieces in which some bytes are read; `limit` is positive. -/
def pieces (limit : Nat) (bytes : List UInt8) : List (List UInt8) :=
  if bytes.length ≤ limit ∨ limit = 0 then [bytes]
  else bytes.take limit :: pieces limit (bytes.drop limit)
termination_by bytes.length
decreasing_by simp only [List.length_drop]; omega

/-- How an execution ends. -/
inductive Result where
  | finished (code : Int) (output : String)
  | refused (failure : Failure)
  | interrupted

/-- An execution underway. -/
inductive Execution where
  /-- `next` arrives when the alarm rings; `read` has been read, last piece first. -/
  | reading (child : Child) (passOn : Bool) (read : List (List UInt8)) (next : List UInt8)
      (rest : List (Float × List UInt8))
  | exiting (child : Child) (output : String)
  | ending (child : Child)

namespace Execution

/-- The text of what was read. -/
def outputOf (read : List (List UInt8)) : String :=
  Text.decodeLossy read.reverse.flatten

/-- The output has ended: the exit is awaited. -/
def awaitExit (c : Child) (read : List (List UInt8)) : Activity.Next Execution Result :=
  let output := outputOf read
  let (c, alarms) := c.await
  match c.code with
  | some code => .ends (.finished code output)
  | none => .waits (.exiting c output) [] alarms

/-- The notes of passing on some bytes. -/
def passing (passOn : Bool) (bytes : List UInt8) : List Note :=
  if passOn then (pieces readLimit bytes).map .output else []

/-- Reads the output as far as it is there. -/
def readOn (c : Child) (passOn : Bool) (read : List (List UInt8)) :
    List (Float × List UInt8) → Reply Execution Result
  | [] => { next := awaitExit c read }
  | (delay, bytes) :: rest =>
    if delay ≤ 0 then
      if bytes.isEmpty then { next := awaitExit c read }
      else
        let reply := readOn c passOn (bytes :: read) rest
        { reply with notes := passing passOn bytes ++ reply.notes }
    else
      { next := .waits (.reading c passOn read bytes rest) [] [(Alarm.output.number, delay)] }

/-- Starts a process and reads what it writes at once. -/
def start (b : Behaviour) (launch : Launch) (passOn : Bool) : Reply Execution Result :=
  let notes : List Note := [.debug .process ("Starting process: " ++
    " ".intercalate launch.arguments ++ " (cwd=" ++
    launch.directory.getD Data.Value.null.shown ++ ")"), .launch launch]
  match b.refusal with
  | some failure => { notes := notes, next := .ends (.refused failure) }
  | none =>
    let reply := readOn (.start b) passOn [] (if b.piped then b.output else [])
    { reply with notes := notes ++ reply.notes }

/-- Terminates the process of an interrupted execution. -/
def interrupt (c : Child) : Reply Execution Result :=
  match c.code with
  | some _ => { next := .ends .interrupted }
  | none =>
    let (asked, alarms) := askToEnd c gracePeriod
    { notes := [terminatingNote c, .terminate]
      next := match asked.code with
        | some _ => .ends .interrupted
        | none => .waits (.ending asked) exitAlarms alarms }

def resume (e : Execution) (wake : Wake) : Reply Execution Result :=
  match e with
  | .reading c passOn read bytes rest =>
    let c := c.hear wake.rung
    if wake.interrupted then interrupt c
    else readOn c passOn read ((0.0, bytes) :: rest)
  | .exiting c output =>
    let c := c.hear wake.rung
    if wake.interrupted then interrupt c
    else
      match c.code with
      | some code => { next := .ends (.finished code output) }
      | none => { next := .waits (.exiting c output) exitAlarms [] }
  | .ending _ => { next := .ends .interrupted }

/-- A bound on the turns of an execution. -/
def turnBound (b : Behaviour) : Nat :=
  b.output.length + 6

end Execution

end Testbed.Job

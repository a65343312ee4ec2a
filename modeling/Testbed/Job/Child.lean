import Testbed.Journal

/-!
# Processes

A process is known by its behaviour: what it writes and when, when it exits and with which code,
and how it takes the signals that ask it to end.  A process that is asked to end before anybody
awaited its exit no longer exits on its own.
-/

namespace Testbed.Job

/-- The behaviour of a process, times being counted in seconds. -/
structure Behaviour where
  /-- The process cannot be started. -/
  refusal : Option Failure := none
  /-- The pieces of output, each with the wait before it; an empty piece ends the output. -/
  output : List (Float × List UInt8) := []
  /-- The output can be read. -/
  piped : Bool := true
  /-- From the moment at which the exit is awaited to the exit. -/
  exitDelay : Float := 0.0
  code : Int := 0
  /-- From the termination signal to the exit, unless the signal is ignored. -/
  onTerminate : Option Float := some 0.0
  /-- From the kill signal to the exit. -/
  onKill : Option Float := some 0.0
  /-- The process has vanished when it is to be terminated. -/
  goneAtTerminate : Bool := false
  /-- The process has vanished when it is to be killed. -/
  goneAtKill : Bool := false
  id : Int := 4242
  /-- The process has already exited with this code. -/
  exited : Option Int := none

/-- Why a process exits. -/
inductive Exit where
  | own
  | terminated
  | killed
deriving DecidableEq, Repr

/-- The alarms of an activity that deals with a process. -/
inductive Alarm where
  | output
  | exit (exit : Exit)
  /-- The time that a process has to obey the termination signal is over. -/
  | grace
deriving DecidableEq, Repr

def Alarm.number : Alarm → Nat
  | .output => 0
  | .exit .own => 1
  | .exit .terminated => 2
  | .exit .killed => 3
  | .grace => 4

/-- The alarms for an exit. -/
def exitAlarms : List Nat :=
  [Exit.own, .terminated, .killed].map fun e ↦ (Alarm.exit e).number

/-- A started process. -/
structure Child where
  behaviour : Behaviour
  /-- The exit code, once the process has exited. -/
  code : Option Int := none
  awaited : Bool := false
  /-- The process was asked to end before its exit was awaited. -/
  asked : Bool := false

namespace Child

def start (b : Behaviour) : Child where
  behaviour := b
  code := b.exited

def codeOf (c : Child) : Exit → Int
  | .own => c.behaviour.code
  | .terminated => -15
  | .killed => -9

/-- The process exits; the first exit gives the code. -/
def exit (c : Child) (e : Exit) : Child :=
  match c.code with
  | none => { c with code := some (c.codeOf e) }
  | some _ => c

/-- The exit of an alarm. -/
def exit? (alarm : Nat) : Option Exit :=
  [Exit.own, .terminated, .killed].find? fun e ↦ (Alarm.exit e).number = alarm

/-- Takes note of the alarms that rang. -/
def hear (c : Child) (rung : List Nat) : Child :=
  (rung.filterMap exit?).foldl exit c

/-- Exits at once or sets an alarm for the exit. -/
def exitAfter (c : Child) (delay : Float) (e : Exit) : Child × List (Nat × Float) :=
  if delay ≤ 0 then (c.exit e, []) else (c, [((Alarm.exit e).number, delay)])

/-- Somebody awaits the exit; the alarms that this sets. -/
def await (c : Child) : Child × List (Nat × Float) :=
  if c.awaited || c.code.isSome then (c, [])
  else
    let c := { c with awaited := true }
    if c.asked then (c, []) else c.exitAfter c.behaviour.exitDelay .own

/-- A signal reaches the process, which exits after a time unless it ignores the signal. -/
def signalled (c : Child) (gone : Bool) (delay : Option Float) (e : Exit) :
    Child × List (Nat × Float) :=
  if c.code.isSome then (c, [])
  else if gone then ({ c with code := some 0 }, [])
  else
    let c := { c with asked := c.asked || !c.awaited }
    match delay with
    | none => (c, [])
    | some delay => c.exitAfter delay e

def terminate (c : Child) : Child × List (Nat × Float) :=
  c.signalled c.behaviour.goneAtTerminate c.behaviour.onTerminate .terminated

def kill (c : Child) : Child × List (Nat × Float) :=
  c.signalled c.behaviour.goneAtKill c.behaviour.onKill .killed

end Child

end Testbed.Job

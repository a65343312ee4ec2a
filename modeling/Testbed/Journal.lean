import Testbed.Progress

/-!
# Journal

What a run tells the outside: lines of its log, progress events, the processes it starts and ends,
and the output it passes on.  A journal lists such notes with the instants at which they were made.
-/

namespace Testbed

/-- A failure that comes from outside, by kind and text. -/
structure Failure where
  kind : String
  text : String
  /-- The operating system has failed. -/
  system : Bool := false
deriving DecidableEq, Repr

inductive Level where
  | debug
  | info
  | warning
  | error
deriving DecidableEq, Repr

def Level.label : Level → String
  | .debug => "DEBUG"
  | .info => "INFO"
  | .warning => "WARNING"
  | .error => "ERROR"

/-- The part of the program that a log line comes from. -/
inductive Channel where
  | program
  | run
  | configuration
  | process
  | cargo
  | command
deriving DecidableEq, Repr

def Channel.name : Channel → String
  | .program => "component_test_runner"
  | .run => "component_test_runner.orchestrator"
  | .configuration => "component_test_runner.config_loader"
  | .process => "component_test_runner.runners.process"
  | .cargo => "component_test_runner.runners.cargo.runner"
  | .command => "component_test_runner.runners.command.runner"

structure LogLine where
  level : Level
  channel : Channel
  text : String
  /-- The failure whose trace follows the line. -/
  trace : Option Failure := none
deriving DecidableEq, Repr

/-- How a process is asked to be started. -/
structure Launch where
  arguments : List String
  directory : Option String
  /-- The whole environment, if it differs from that of the program. -/
  environment : Option (List (String × String))
deriving DecidableEq, Repr

inductive Note where
  | log (line : LogLine)
  | progress (event : Event)
  | launch (launch : Launch)
  | terminate
  | kill
  | output (bytes : List UInt8)

def Note.debug (channel : Channel) (text : String) : Note :=
  .log { level := .debug, channel := channel, text := text }

def Note.info (channel : Channel) (text : String) : Note :=
  .log { level := .info, channel := channel, text := text }

def Note.warning (channel : Channel) (text : String) : Note :=
  .log { level := .warning, channel := channel, text := text }

/-- A note with the instant at which it was made. -/
structure Entry where
  time : Float
  note : Note

abbrev Journal := List Entry

/-- The log lines of a journal. -/
def Journal.log (j : Journal) : List LogLine :=
  j.filterMap fun e ↦ match e.note with
    | .log line => some line
    | _ => none

/-- The progress events of a journal, with their instants. -/
def Journal.events (j : Journal) : List (Float × Event) :=
  j.filterMap fun e ↦ match e.note with
    | .progress event => some (e.time, event)
    | _ => none

@[simp]
theorem Journal.events_append (j k : Journal) : (j ++ k).events = j.events ++ k.events := by
  simp [Journal.events]

end Testbed

import Testbed.Session.Streams

/-!
# Command line

Reads from the system what a session needs, and writes what the session gives.  Processes are not
started from here: their refusal is part of what the session is told.
-/

namespace Testbed.Shell

/-- The bytes of the file at a path. -/
def readFile? (path : Path) : IO (Option (List UInt8)) := do
  try
    return some (← IO.FS.readBinFile path.text).toList
  catch _ => return none

def isDirectory (path : Path) : IO Bool := do
  try
    (← IO.FS.realPath path.text).isDir
  catch _ => return false

def isFile (directory name : String) : IO Bool := do
  try
    let place := (← IO.FS.realPath directory) / name
    return (← place.pathExists) && !(← place.isDir)
  catch _ => return false

/-- Where a program is installed.  A name with a slash is a path by itself. -/
def findProgram? (name : String) : IO (Option String) := do
  if name.toList.contains '/' then
    return if ← isFile "." name then some name else none
  else
    let places := ((← IO.getEnv "PATH").getD "").splitOn ":"
    let found? ← places.findM? fun place ↦ isFile place name
    return found?.map fun place ↦ place ++ "/" ++ name

/-- How the system answers when a process is to be started. -/
def refusal : Failure where
  kind := "OSError"
  text := "[Errno 38] Function not implemented"
  system := true

/-- The configured runner of a command line, if there is one. -/
def configured? (a : CommandLine.Arguments) (files : Files) : Option Configured := do
  let c ← (a.configuration files).2.toOption
  let usable ← (Catalogue.installed.lookup c.runner).toOption
  (usable.settings.configure c.runnerConfig).toOption

/-- The surroundings as far as a command line has to do with them. -/
def surroundings (a : CommandLine.Arguments) : IO Surroundings := do
  let path := a.config.value?.getD Config.usualFile
  let bytes ← readFile? path
  let files : Files := {
    file? := fun p ↦ if p = path then bytes else none
    isDirectory := fun _ ↦ false }
  let configured := configured? a files
  let directory? := configured.bind Configured.directory?
  let found ← match directory? with
    | some p => isDirectory p
    | none => pure false
  let program ← match configured with
    | some c => findProgram? c.program
    | none => pure none
  return {
    files := { files with isDirectory := fun p ↦ found && directory? = some p }
    environment := []
    program := fun name ↦ if configured.any (·.program = name) then program else none
    behaviour := fun _ ↦ { refusal := some refusal }
    pieces := 0 }

/-- Writes what a session gives; a session that a fault ends has the code one. -/
def write (session : Session) (display : Display) : IO UInt32 := do
  (← IO.getStderr).putStr (session.errorText display)
  (← IO.getStdout).write ⟨(session.outputBytes display).toArray⟩
  if let .fault f := session.conclusion then
    IO.eprintln f.message
  return UInt32.ofNat (session.conclusion.exitCode?.getD 1)

end Testbed.Shell

open Testbed in
def main (words : List String) : IO UInt32 := do
  match CommandLine.parse words with
  | .error .help =>
    IO.print CommandLine.help
    return 0
  | .error (.refused e) =>
    IO.eprint (CommandLine.usage ++ CommandLine.programName ++ ": error: " ++ e.message ++ "\n")
    return 2
  | .ok a =>
    let around ← Shell.surroundings a
    let stamp := toString (← IO.monoMsNow)
    Shell.write (Session.ofArguments a around .never) (a.display stamp)

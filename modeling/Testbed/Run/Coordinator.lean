import Testbed.Registry
import Testbed.Run.Attempt

/-!
# Coordinator

The coordinator starts components while there are free places, waits until some work ends or the run
is cancelled, and records the outcomes.  When the run is cancelled, or some work fails in itself, it
interrupts all work underway and waits for its end.  Components that were never started are skipped
in the end.
-/

namespace Testbed.Run

variable {σ ι : Type}

def skippedFailFast : String := "Not run: an earlier component failed (fail-fast)"
def skippedCancelled : String := "Not run: the run was cancelled"
def interruptedCancelled : String := "Interrupted: the run was cancelled"

/-- The outcome of a component that was not tested to the end. -/
def skipped (component reason : String) : Outcome where
  component := component
  status := .skipped
  diagnostics := some reason

def skipEvent (component : String) : Event where
  component := component
  phase := .finished
  status := some .skipped

/-- Whether a status stops the start of further components if the policy asks for it. -/
def halting (status : Status) : Bool :=
  status = .failed || status = .errored

namespace Slot

def isPending : Slot ι → Bool
  | .pending => true
  | _ => false

def isRunning : Slot ι → Bool
  | .running _ => true
  | _ => false

/-- How the work ended, if it has ended and is not settled. -/
def finish? : Slot ι → Option Finish
  | .running { stage := .finished f, .. } => some f
  | _ => none

end Slot

namespace State

/-- The places whose slot satisfies a condition, in order. -/
def placesWith (s : State σ ι) (p : Slot ι → Bool) : List Nat :=
  (List.range s.places.length).filter fun i ↦ (s.slot? i).any p

def runningCount (s : State σ ι) : Nat :=
  s.places.countP (·.slot.isRunning)

/-- What is recorded of the outcomes: the places, the notes, whether the run is halted, and what
aborts it. -/
structure Settled (ι : Type) where
  places : List (Place ι)
  notes : List Note := []
  halted : Bool
  abort : Option Abort := none

/-- Settles ended work in order, up to work that did not end in an outcome. -/
def settle (failFast halted : Bool) : List (Place ι) → Settled ι
  | [] => { places := [], halted := halted }
  | p :: rest =>
    match p.slot.finish? with
    | none =>
      let r := settle failFast halted rest
      { r with places := p :: r.places }
    | some (.outcome o) =>
      let stops := failFast && halting o.status
      let r := settle failFast (halted || stops) rest
      let notes := if stops && !halted then
          [.info .run (o.component ++ " " ++ o.status.label ++ ", not starting further components")]
        else []
      { r with places := { p with slot := .settled o } :: r.places, notes := notes ++ r.notes }
    | some (.failed failure) =>
      { places := p :: rest, halted := halted, abort := some (.failure failure) }
    | some .interrupted => { places := p :: rest, halted := halted, abort := some .interrupted }

end State

/-- Emits a skip event for each of the places, up to a failure of the listener. -/
def emitSkips (setup : Setup σ ι) (places : List Nat) (s : State σ ι) :
    State σ ι × Option Failure :=
  match places with
  | [] => (s, none)
  | i :: rest =>
    match s.places[i]? with
    | none => emitSkips setup rest s
    | some p =>
      match setup.emit s (skipEvent p.component) with
      | (s, some failure) => (s, some failure)
      | (s, none) => emitSkips setup rest s

/-- The run ends. -/
def stop (abort : Option Abort) (s : State σ ι) : State σ ι :=
  { s with coordinator := .done abort }

/-- A pending place is skipped for a reason. -/
def Place.skip (reason : String) (p : Place ι) : Place ι :=
  match p.slot with
  | .pending => { p with slot := .settled (skipped p.component reason) }
  | _ => p

/-- The outcomes of the run, which are all there when it ends. -/
def State.report (s : State σ ι) : Report where
  outcomes := s.places.filterMap fun p ↦ match p.slot with
    | .settled o => some o
    | _ => none

/-- Skips what was never started. -/
def complete (setup : Setup σ ι) (s : State σ ι) : State σ ι :=
  let reason := if s.cancelled then skippedCancelled else skippedFailFast
  match emitSkips setup (s.placesWith Slot.isPending) s with
  | (s, some failure) => stop (some (.failure failure)) s
  | (s, none) =>
    let s := { s with places := s.places.map (Place.skip reason) }
    stop none (s.note (.info .run ("Test execution completed: " ++ s.report.verdict.label)))

/-- Interrupts all work underway and waits for its end. -/
def drain (cause : Option Abort) (s : State σ ι) : State σ ι :=
  let running := s.placesWith Slot.isRunning
  let s := { s with epoch := s.epoch + 1, coordinator := .draining running.length cause }
  let s := running.foldl (fun s i ↦ interrupt i s) s
  (s.placesWith fun slot ↦ slot.finish?.isSome).foldl (fun s _ ↦ s.enqueue (.notice s.epoch)) s

/-- Whether drained work is kept: only if it ended in an outcome. -/
def Slot.kept : Slot ι → Bool
  | .running { stage := .finished (.outcome _), .. } => true
  | _ => false

/-- What becomes of a place when its work was drained. -/
def Place.drained (p : Place ι) : Place ι :=
  match p.slot with
  | .running { stage := .finished (.outcome o), .. } => { p with slot := .settled o }
  | .running _ => { p with slot := .settled (skipped p.component interruptedCancelled) }
  | _ => p

/-- All work has ended: what ended in an outcome is kept, the rest is skipped. -/
def concludeDrain (setup : Setup σ ι) (cause : Option Abort) (s : State σ ι) : State σ ι :=
  match emitSkips setup (s.placesWith fun slot ↦ slot.isRunning && !slot.kept) s, cause with
  | (s, none), none => complete setup { s with places := s.places.map Place.drained }
  | (s, none), some abort => stop (some abort) s
  | (s, some failure), none => drain (some (.failure failure)) s
  | (s, some failure), some _ => stop (some (.failure failure)) s

/-- Starts pending components, up to `free` of them. -/
def launch (free : Nat) (s : State σ ι) : State σ ι :=
  ((s.placesWith Slot.isPending).take free).foldl
    (fun s i ↦ (s.setWorker i { started := s.now }).enqueue (.work i)) s

/-- Fills the free places and waits, or ends the run if there is nothing to wait for. -/
def fill (setup : Setup σ ι) (s : State σ ι) : State σ ι :=
  let s := if s.halted || s.cancelled then s
    else launch (setup.policy.parallelism.toNat - s.runningCount) s
  if s.runningCount = 0 then complete setup s
  else { s with epoch := s.epoch + 1, coordinator := .waiting false }

/-- Records what has ended and goes on accordingly. -/
def collect (setup : Setup σ ι) (s : State σ ι) : State σ ι :=
  let settled := State.settle setup.policy.failFast s.halted s.places
  let s := { s with places := settled.places, halted := settled.halted }.noteAll settled.notes
  match settled.abort with
  | some abort => drain (some abort) s
  | none =>
    if s.cancelled then
      let s := s.note (.warning .run
        ("Run cancelled, stopping " ++ toString s.runningCount ++ " component(s)"))
      if s.runningCount = 0 then concludeDrain setup none s else drain none s
    else fill setup s

/-- The turn of the coordinator. -/
def coordinate (setup : Setup σ ι) (s : State σ ι) : State σ ι :=
  match s.coordinator with
  | .waiting _ => collect setup s
  | .draining _ cause => concludeDrain setup cause s
  | .done _ => s

/-- The coordinator is told of what it waits for: one notice is enough for the end of some work, but
all interrupted work has to end. -/
def notice (epoch : Nat) (s : State σ ι) : State σ ι :=
  if epoch ≠ s.epoch then s
  else
    match s.coordinator with
    | .waiting false => { s with coordinator := .waiting true }.enqueue .coordinate
    | .draining (left + 1) cause =>
      let s := { s with coordinator := .draining left cause }
      if left = 0 then s.enqueue .coordinate else s
    | _ => s

/-- Looks for the cancellation, and waits for it if there is none. -/
def watch (s : State σ ι) : State σ ι :=
  if s.cancelled then
    match s.coordinator with
    | .waiting _ => s.enqueue (.notice s.epoch)
    | _ => s
  else { s with watching := true }

end Testbed.Run

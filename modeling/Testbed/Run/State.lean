import Testbed.Policy
import Testbed.Runner.Basic

/-!
# State of a run

A run tests the components of a registry, several at once.  Everything that happens is a turn.
Turns wait in a queue, and those that they queue in their course belong to the next round.  A turn
can also be set for a later instant: at the start of a round all turns that are due join its queue,
in the order in which they were set, and when there is nothing else to do the clock moves on to the
next of them.  Turns take no time.
-/

namespace Testbed

/-- What ends a run without a report. -/
inductive Abort where
  | failure (failure : Failure)
  /-- The attempt at a component was interrupted by itself. -/
  | interrupted
deriving DecidableEq, Repr

namespace Run

/-- How the work on a component ends. -/
inductive Finish where
  | outcome (outcome : Outcome)
  | interrupted
  | failed (failure : Failure)

/-- What a waiting invocation has been told since it waits. -/
structure Signals where
  /-- The next turn is queued. -/
  queued : Bool := false
  rung : List Nat := []
  interrupted : Bool := false

inductive Stage (ι : Type) where
  | fresh
  /-- An invocation waits for the alarms in `awaits`. -/
  | suspended (invocation : ι) (awaits : List Nat) (signals : Signals)
  | finished (finish : Finish)

/-- The work on a component that was started. -/
structure Worker (ι : Type) where
  started : Float
  /-- The attempt underway, counted from one. -/
  attempt : Nat := 1
  /-- The interruptions that no expired limit has accounted for. -/
  outstanding : Nat := 0
  /-- The time limit of the attempt has expired. -/
  expired : Bool := false
  stage : Stage ι := .fresh

inductive Slot (ι : Type) where
  | pending
  | running (worker : Worker ι)
  | settled (outcome : Outcome)

/-- A component of the registry with what has become of it so far. -/
structure Place (ι : Type) where
  component : String
  slot : Slot ι := .pending

/-- The turns of a run. -/
inductive Turn where
  /-- The work on a component goes on. -/
  | work (place : Nat)
  /-- The time limit of an attempt expires. -/
  | expire (place attempt : Nat)
  /-- An alarm of an invocation rings. -/
  | ring (place attempt alarm : Nat)
  /-- The run is cancelled from outside. -/
  | cancel
  /-- The cancellation is looked for. -/
  | watch
  /-- The coordinator is told that something it waits for has happened. -/
  | notice (epoch : Nat)
  | coordinate
deriving DecidableEq, Repr

/-- A turn that is set for an instant. -/
structure Timer where
  due : Float
  turn : Turn
deriving Repr

/-- What the coordinator is about. -/
inductive Coordinator where
  /-- Waits for the end of some work or the cancellation. -/
  | waiting (woken : Bool)
  /-- Waits for the end of all interrupted work, which still has to be noticed `left` times. -/
  | draining (left : Nat) (cause : Option Abort)
  | done (abort : Option Abort)

structure State (σ ι : Type) where
  now : Float
  timers : List Timer
  queue : List Turn
  /-- The queue of the next round. -/
  next : List Turn
  shared : σ
  places : List (Place ι)
  /-- No further component is started. -/
  halted : Bool
  cancelled : Bool
  /-- The cancellation is waited for. -/
  watching : Bool
  coordinator : Coordinator
  /-- Tells the waits of the coordinator apart. -/
  epoch : Nat
  /-- The notes so far, the last one first. -/
  journal : Journal

variable {σ ι : Type}

namespace State

def note (s : State σ ι) (n : Note) : State σ ι :=
  { s with journal := ⟨s.now, n⟩ :: s.journal }

def noteAll (s : State σ ι) (notes : List Note) : State σ ι :=
  notes.foldl note s

def enqueue (s : State σ ι) (turn : Turn) : State σ ι :=
  { s with next := s.next ++ [turn] }

/-- Sets a turn for the instant `delay` from now. -/
def set (s : State σ ι) (delay : Float) (turn : Turn) : State σ ι :=
  { s with timers := s.timers ++ [⟨s.now + delay, turn⟩] }

def slot? (s : State σ ι) (place : Nat) : Option (Slot ι) :=
  s.places[place]?.map (·.slot)

def worker? (s : State σ ι) (place : Nat) : Option (Worker ι) :=
  match s.slot? place with
  | some (.running w) => some w
  | _ => none

def setSlot (s : State σ ι) (place : Nat) (slot : Slot ι) : State σ ι :=
  { s with places := s.places.modify place fun p ↦ { p with slot := slot } }

def setWorker (s : State σ ι) (place : Nat) (w : Worker ι) : State σ ι :=
  s.setSlot place (.running w)

/-- Cancels the run, once. -/
def cancel (s : State σ ι) : State σ ι :=
  if s.cancelled then s
  else
    let s := { s with cancelled := true }
    if s.watching then s.enqueue .watch else s

end State

/-- What the listener does when it is told of an event. -/
structure Reaction where
  /-- Cancels the run, at once or after a delay. -/
  cancel : Option (Option Float) := none
  failure : Option Failure := none

/-- What a run is about. -/
structure Setup (σ ι : Type) where
  runner : Runner σ ι
  policy : Policy
  listener : Event → Reaction := fun _ ↦ {}

/-- Emits an event.  A failure of the listener is a failure of whoever emits the event. -/
def Setup.emit (setup : Setup σ ι) (s : State σ ι) (e : Event) : State σ ι × Option Failure :=
  let s := (s.note (.debug .run ("Progress: " ++ e.detail))).note (.progress e)
  let reaction := setup.listener e
  let s := match reaction.cancel with
    | none => s
    | some none => s.cancel
    | some (some delay) => s.set delay .cancel
  (s, reaction.failure)

end Run

end Testbed

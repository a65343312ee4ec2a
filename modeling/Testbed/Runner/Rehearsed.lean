import Testbed.Runner.Basic

/-!
# Rehearsed runner

A runner whose invocations are arranged in advance.  The `n`-th invocation for a component takes the
`n`-th cue of the component: it waits, and then ends as the cue says.  A cue may also arrange what
happens when the wait is interrupted.  The runner keeps a record of its invocations and of the
number that were active at once.
-/

namespace Testbed

/-- What happens when a rehearsed wait is interrupted: after a further wait the invocation ends, in
an interruption unless another ending is arranged. -/
structure Aftermath where
  delay : Float := 0.0
  ending : Ending := .interrupted

/-- One rehearsed invocation. -/
structure Cue where
  delay : Float := 0.0
  ending : Ending := .answered { status := .passed, diagnostics := some "ok" }
  aftermath : Option Aftermath := none

/-- An invocation that was made. -/
structure Call where
  component : String
  capture : Bool
  time : Float

namespace Rehearsal

structure Shared where
  /-- The invocations so far, in order. -/
  calls : List Call := []
  active : Nat := 0
  /-- The highest number of invocations active at once. -/
  peak : Nat := 0

/-- How often a component was tested. -/
def Shared.count (s : Shared) (component : String) : Nat :=
  s.calls.countP (·.component = component)

def Shared.enter (s : Shared) (call : Call) : Shared where
  calls := s.calls ++ [call]
  active := s.active + 1
  peak := max (s.active + 1) s.peak

def Shared.leave (s : Shared) : Shared :=
  { s with active := s.active - 1 }

/-- An invocation in its wait, or in the wait after an interruption. -/
inductive Invocation where
  | waiting (cue : Cue)
  | leaving (ending : Ending)

/-- Waits for a time; one that is not positive costs a turn. -/
def sleep (alarm : Nat) (delay : Float) (invocation : Invocation) : Activity.Next Invocation Ending :=
  if delay ≤ 0 then .yields invocation else .waits invocation [] [(alarm, delay)]

def start (cue : String → Nat → Cue) (s : Shared) (now : Float) (component : String)
    (capture : Bool) : Shared × Reply Invocation Ending :=
  let cue := cue component (s.count component)
  (s.enter ⟨component, capture, now⟩, { next := sleep 0 cue.delay (.waiting cue) })

def resume (s : Shared) (invocation : Invocation) (wake : Wake) :
    Shared × Reply Invocation Ending :=
  match invocation, wake.interrupted with
  | .waiting cue, false => (s.leave, { next := .ends cue.ending })
  | .waiting cue, true =>
    match cue.aftermath with
    | none => (s.leave, { next := .ends .interrupted })
    | some after =>
      if after.delay ≤ 0 then (s.leave, { next := .ends after.ending })
      else (s, { next := sleep 1 after.delay (.leaving after.ending) })
  | .leaving ending, false => (s.leave, { next := .ends ending })
  | .leaving _, true => (s.leave, { next := .ends .interrupted })

end Rehearsal

/-- The runner that follows `cue`, which gives the cue of a component's invocations counted from
zero. -/
def Runner.rehearsed (cue : String → Nat → Cue) : Runner Rehearsal.Shared Rehearsal.Invocation where
  start := Rehearsal.start cue
  resume s _ := Rehearsal.resume s
  turns := 3

/-- The entry of a script for an invocation counted from zero: the last entry repeats, and an empty
script has none. -/
def Script.entry? {α : Type} (script : List α) (n : Nat) : Option α :=
  script[min n (script.length - 1)]?

/-- A script of endings per component, with one delay per component. -/
structure Script where
  entries : String → List Ending
  delay : String → Float

/-- The cue of an invocation: components without a script pass. -/
def Script.cue (s : Script) (component : String) (n : Nat) : Cue where
  delay := s.delay component
  ending := (Script.entry? (s.entries component) n).getD
    (.answered { status := .passed, diagnostics := some "ok" })

/-- The runner that answers from a script. -/
def Runner.scripted (s : Script) : Runner Rehearsal.Shared Rehearsal.Invocation :=
  .rehearsed s.cue

end Testbed

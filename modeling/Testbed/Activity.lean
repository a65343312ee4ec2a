import Testbed.Journal

/-!
# Activities

An activity is described by what it does whenever it has control: it ends, gives up its turn once,
or waits for the first of its alarms.  An alarm is known by a number and rings a given time after it
was set.  An activity that waits can also be interrupted; what it does then is its own affair.
-/

namespace Testbed

/-- The earliest of some instants. -/
def Clock.earliest : List Float → Option Float
  | [] => none
  | t :: rest =>
    match earliest rest with
    | none => if t.isNaN then none else some t
    | some u => if t < u then some t else some u

/-- What an activity with the state `ι` and the result `ρ` does next. -/
inductive Activity.Next (ι ρ : Type) where
  | ends (result : ρ)
  /-- Goes on with its next turn. -/
  | yields (state : ι)
  /-- Goes on when an alarm rings: one of those kept, or one of those set now. -/
  | waits (state : ι) (keep : List Nat) (alarms : List (Nat × Float))

open Activity in
/-- The notes of one turn and what comes after it. -/
structure Reply (ι ρ : Type) where
  notes : List Note := []
  next : Next ι ρ

/-- Why an activity has control again. -/
structure Wake where
  /-- The alarms that rang, in order. -/
  rung : List Nat := []
  interrupted : Bool := false

namespace Activity

variable {ι ρ κ : Type}

/-- Gives a different form to the state and the result. -/
def Next.map {ι' ρ' : Type} (f : ι → ι') (g : ρ → ρ') : Next ι ρ → Next ι' ρ'
  | .ends result => .ends (g result)
  | .yields state => .yields (f state)
  | .waits state keep alarms => .waits (f state) keep alarms

/-- An alarm that was set, with the instant at which it rings. -/
structure Alarm where
  due : Float
  number : Nat

/-- An activity on its own, at an instant. -/
structure Alone (ι ρ : Type) where
  now : Float
  alarms : List Alarm
  /-- The instants at which the activity is still to be interrupted. -/
  interruptions : List Float
  journal : Journal
  next : Next ι ρ

/-- Takes over what an activity does at the present instant. -/
def Alone.accept (a : Alone ι ρ) (reply : Reply ι ρ) : Alone ι ρ :=
  { a with
    journal := a.journal ++ reply.notes.map fun n ↦ ⟨a.now, n⟩
    alarms := match reply.next with
      | .waits _ keep set =>
        a.alarms.filter (fun alarm ↦ keep.contains alarm.number) ++
          set.map fun (number, delay) ↦ ⟨a.now + delay, number⟩
      | _ => []
    next := reply.next }

/-- The state, the instant and the reasons with which the activity goes on; there is none if it has
ended or waits for nothing. -/
def Alone.wake? (a : Alone ι ρ) : Option (ι × Float × Wake) :=
  match a.next with
  | .ends _ => none
  | .yields state => some (state, a.now, { interrupted := a.interruptions.any (· ≤ a.now) })
  | .waits state _ _ =>
    match Clock.earliest (a.interruptions ++ a.alarms.map (·.due)) with
    | none => none
    | some due =>
      let now := if a.now < due then due else a.now
      some (state, now, {
        rung := (a.alarms.filter (·.due ≤ now)).map (·.number)
        interrupted := a.interruptions.any (· ≤ now) })

/-- Goes on as long as there is something to go on with. -/
def Alone.run (resume : Float → ι → Wake → Reply ι ρ) : (turns : Nat) → Alone ι ρ → Alone ι ρ
  | 0, a => a
  | turns + 1, a =>
    match a.wake? with
    | none => a
    | some (state, now, wake) =>
      let a := { a with
        now := now
        alarms := a.alarms.filter fun alarm ↦ !(alarm.due ≤ now)
        interruptions := a.interruptions.filter fun t ↦ !(t ≤ now) }
      (a.accept (resume now state wake)).run resume turns

/-- Begins an activity on its own with its first reply. -/
def Alone.start (now : Float) (interruptions : List Float) (reply : Reply ι ρ) : Alone ι ρ :=
  Alone.accept
    { now, alarms := [], interruptions, journal := [], next := reply.next } reply

/-- The result, if the activity has ended. -/
def Alone.result? (a : Alone ι ρ) : Option ρ :=
  match a.next with
  | .ends result => some result
  | _ => none

end Activity

end Testbed

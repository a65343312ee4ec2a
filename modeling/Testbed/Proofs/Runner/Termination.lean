import Testbed.Job.Termination
import Testbed.Proofs.Runner.Timeliness
import Testbed.Proofs.Runner.Waking

/-!
# The protocol of a termination

A process that has not exited is asked to end exactly once and first of all; it is killed once at most,
and only when the grace period has passed without its end.  The termination returns when the process
has ended and not before.  Where the activity that terminates the process is being interrupted itself,
the end of the grace period gives the termination up, and nothing is killed.
-/

namespace Testbed

open Clock Activity

namespace Job

/-! ## Signals -/

inductive Signal where
  | terminate
  | kill
deriving DecidableEq, Repr

/-- The exit that obeys a signal. -/
def Signal.exit : Signal → Exit
  | .terminate => .terminated
  | .kill => .killed

/-- The process has vanished when the signal is to be sent. -/
def Behaviour.isGone (b : Behaviour) : Signal → Bool
  | .terminate => b.goneAtTerminate
  | .kill => b.goneAtKill

/-- From the signal to the exit, unless the signal is ignored. -/
def Behaviour.delay? (b : Behaviour) : Signal → Option Float
  | .terminate => b.onTerminate
  | .kill => b.onKill

/-- A process that the kill signal ends, or that has vanished when it is to be sent. -/
def Behaviour.EndsWhenKilled (b : Behaviour) : Prop :=
  b.goneAtKill = true ∨ ∃ delay, b.onKill = some delay ∧ delay.isNaN = false

end Job

/-- The signals that a journal tells of, with their instants. -/
def Journal.signals (j : Journal) : List (Float × Job.Signal) :=
  j.filterMap fun e ↦ match e.note with
    | .terminate => some (e.time, .terminate)
    | .kill => some (e.time, .kill)
    | _ => none

theorem Journal.signals_append (j j' : Journal) : (j ++ j').signals = j.signals ++ j'.signals :=
  List.filterMap_append

theorem Activity.Alone.signals_accept {ι ρ : Type} (a : Alone ι ρ) (reply : Reply ι ρ) :
    (a.accept reply).journal.signals =
      a.journal.signals ++ Journal.signals (reply.notes.map fun n ↦ ⟨a.now, n⟩) :=
  Journal.signals_append _ _

theorem Activity.Alone.signals_accept_of_nil {ι ρ : Type} (a : Alone ι ρ) {reply : Reply ι ρ}
    (h : reply.notes = []) : (a.accept reply).journal.signals = a.journal.signals := by
  rw [signals_accept, h]
  exact List.append_nil _

theorem Activity.Alone.mem_alarms_accept {ι ρ : Type} (a : Alone ι ρ) {reply : Reply ι ρ} {state : ι}
    {keep : List Nat} {set : List (Nat × Float)} (h : reply.next = .waits state keep set) {alarm : Alarm} :
    alarm ∈ (a.accept reply).alarms ↔
      alarm ∈ a.alarms ∧ alarm.number ∈ keep ∨
        ∃ number delay, (number, delay) ∈ set ∧ alarm = ⟨a.now + delay, number⟩ := by
  rw [Alone.accept, h]
  simp [eq_comm]

namespace Job

/-! ## How a process ends -/

/-- The instant a time after another one, which is the same unless the time is positive. -/
def after (t delay : Float) : Float :=
  if delay ≤ 0 then t else t + delay

/-- The reasons for which a process ends, each with an instant and a code: it has exited already; it
exits on its own, at an instant that is settled; it vanished before a signal; or it obeys a signal. -/
inductive Child.EndsAt (c : Child) (own : Option Float) (signals : List (Float × Signal)) :
    Float → Int → Prop
  | already {code : Int} (h : c.code = some code) (t : Float) : EndsAt c own signals t code
  | own {t : Float} (h : own = some t) : EndsAt c own signals t (c.codeOf .own)
  | vanished {t : Float} {s : Signal} (h : (t, s) ∈ signals) (gone : c.behaviour.isGone s = true) :
      EndsAt c own signals t 0
  | obeyed {t delay : Float} {s : Signal} (h : (t, s) ∈ signals) (found : c.behaviour.isGone s = false)
      (hdelay : c.behaviour.delay? s = some delay) : EndsAt c own signals (after t delay) (c.codeOf s.exit)

/-- A signal is due to kill a process that was asked to end: the grace period has passed, and the process
has not ended before. -/
structure Child.KillDue (c : Child) (own : Option Float) (asked grace t : Float) : Prop where
  elapsed : asked + grace ≤ t
  running : ∀ x code, c.EndsAt own [(asked, .terminate)] x code → ¬x < t

variable {c c' : Child} {own : Option Float} {signals signals' : List (Float × Signal)}

theorem Child.codeOf_congr (h : c'.behaviour = c.behaviour) (e : Exit) : c'.codeOf e = c.codeOf e := by
  cases e with
  | own => exact congrArg Behaviour.code h
  | terminated | killed => rfl

theorem Child.EndsAt.mono {t : Float} {code : Int} (h : c.EndsAt own signals t code)
    (hsignals : signals ⊆ signals') : c.EndsAt own signals' t code := by
  cases h with
  | already h => exact .already h t
  | own h => exact .own h
  | vanished h gone => exact .vanished (hsignals h) gone
  | obeyed h found hdelay => exact .obeyed (hsignals h) found hdelay

/-- How a process that is still running ends is known from its behaviour. -/
theorem Child.EndsAt.congr {t : Float} {code : Int} (h : c'.EndsAt own signals t code)
    (hrunning : c'.code = none) (hbehaviour : c'.behaviour = c.behaviour) :
    c.EndsAt own signals t code := by
  cases h with
  | already h => cases hrunning.symm.trans h
  | own h =>
    rw [codeOf_congr hbehaviour]
    exact .own h
  | vanished h gone => exact .vanished h (hbehaviour ▸ gone)
  | obeyed h found hdelay =>
    rw [codeOf_congr hbehaviour]
    exact .obeyed h (hbehaviour ▸ found) (hbehaviour ▸ hdelay)

namespace Child

theorem number_injective {e e' : Exit} (h : (Alarm.exit e).number = (Alarm.exit e').number) : e = e' := by
  cases e <;> cases e' <;> first | rfl | cases h

theorem exit?_eq_some {alarm : Nat} {e : Exit} (h : exit? alarm = some e) :
    alarm = (Alarm.exit e).number := by
  have hnumber := List.find?_some h
  exact (of_decide_eq_true hnumber).symm

theorem exits_of_some {code : Int} (h : c.code = some code) (exits : List Exit) :
    exits.foldl exit c = c := by
  induction exits with
  | nil => rfl
  | cons e exits ih => rw [List.foldl_cons, exit, h, ih]

/-- A process that was running ends by an exit that is heard of. -/
theorem hear_eq_some (hrunning : c.code = none) {rung : List Nat} {code : Int}
    (h : (c.hear rung).code = some code) :
    ∃ e, (Alarm.exit e).number ∈ rung ∧ code = c.codeOf e := by
  rw [hear] at h
  cases hexits : rung.filterMap exit? with
  | nil =>
    rw [hexits, List.foldl_nil, hrunning] at h
    cases h
  | cons e exits =>
    have hcode : (c.exit e).code = some (c.codeOf e) := by rw [exit, hrunning]
    rw [hexits, List.foldl_cons, exits_of_some hcode, hcode] at h
    have hmem : e ∈ rung.filterMap exit? := hexits ▸ List.mem_cons_self
    obtain ⟨number, hnumber, hexit⟩ := List.mem_filterMap.1 hmem
    exact ⟨e, exit?_eq_some hexit ▸ hnumber, (Option.some_inj.1 h).symm⟩

/-- Sends a signal to a process. -/
def send (c : Child) (s : Signal) : Child × List (Nat × Float) :=
  c.signalled (c.behaviour.isGone s) (c.behaviour.delay? s) s.exit

theorem terminate_eq_send (c : Child) : c.terminate = c.send .terminate := rfl

theorem kill_eq_send (c : Child) : c.kill = c.send .kill := rfl

/-- A process still runs when it was sent a signal: it was found, and an alarm is set for the exit that
obeys the signal. -/
structure Survives (c : Child) (s : Signal) : Prop where
  running : (c.send s).1.code = none
  behaviour : (c.send s).1.behaviour = c.behaviour
  awaited : ((c.send s).1.awaited || (c.send s).1.asked) = true
  found : c.behaviour.isGone s = false
  sound : ∀ number delay, (number, delay) ∈ (c.send s).2 → number = (Alarm.exit s.exit).number ∧
    c.behaviour.delay? s = some delay
  complete : ∀ delay, c.behaviour.delay? s = some delay →
    ((Alarm.exit s.exit).number, delay) ∈ (c.send s).2 ∧ ¬delay ≤ 0

/-- A process that is sent a signal ends at once, or goes on. -/
theorem ends_or_survives (hrunning : c.code = none) (s : Signal) :
    (∃ code, (c.send s).1.code = some code ∧
      ∀ t own signals, (t, s) ∈ signals → c.EndsAt own signals t code) ∨ c.Survives s := by
  have hasked : (c.awaited || (c.asked || !c.awaited)) = true := by
    cases c.awaited <;> cases c.asked <;> rfl
  cases hgone : c.behaviour.isGone s with
  | true =>
    left
    refine ⟨0, ?_, fun t own signals h ↦ .vanished h hgone⟩
    simp [send, signalled, hrunning, hgone]
  | false =>
    cases hdelay : c.behaviour.delay? s with
    | none =>
      right
      constructor <;> simp [send, signalled, hrunning, hgone, hdelay, hasked]
    | some delay =>
      by_cases hle : delay ≤ 0
      · left
        refine ⟨c.codeOf s.exit, ?_, ?_⟩
        · simp [send, signalled, hrunning, hgone, hdelay, exitAfter, hle, exit, codeOf]
        · intro t own signals h
          have hafter : after t delay = t := if_pos hle
          exact hafter ▸ .obeyed h hgone hdelay
      · right
        constructor <;> simp [send, signalled, hrunning, hgone, hdelay, exitAfter, hle, hasked, eq_comm]

/-- The alarm for the exit that obeys a signal rings when the process ends. -/
theorem Survives.endsAt {s : Signal} (h : c.Survives s) (own : Option Float) {number : Nat} {delay t : Float}
    (hset : (number, delay) ∈ (c.send s).2) (hsent : (t, s) ∈ signals) :
    number = (Alarm.exit s.exit).number ∧ c.EndsAt own signals (t + delay) (c.codeOf s.exit) := by
  obtain ⟨hnumber, hdelay⟩ := h.sound number delay hset
  have hafter : after t delay = t + delay := if_neg (h.complete delay hdelay).2
  exact ⟨hnumber, hafter ▸ .obeyed hsent h.found hdelay⟩

/-- Nobody awaits the exit of a process that is awaited already, or that was asked to end. -/
theorem await_idle (h : (c.awaited || c.asked) = true) :
    c.await.2 = [] ∧ c.await.1.code = c.code ∧ c.await.1.behaviour = c.behaviour := by
  unfold await
  split
  · exact ⟨rfl, rfl, rfl⟩
  · next hnot =>
    have hasked : c.asked = true := by
      rw [Bool.or_eq_true, not_or] at hnot
      rw [Bool.or_eq_true] at h
      exact h.resolve_left hnot.1
    simp only [hasked, if_true]
    exact ⟨trivial, trivial, trivial⟩

end Child

namespace Termination

/-! ## The stages of a termination -/

section Stages

variable {begun grace : Float} {pending : Bool} {a : Alone Termination Result} {now : Float} {wake : Wake}
  {state : Child → Termination} {keep : List Nat} {alarms : List (Nat × Float)}

theorem awaitExit_of_some {code : Int} (h : c.code = some code) :
    awaitExit state c keep alarms = .ends (.exited code) := by
  rw [awaitExit, h]

theorem awaitExit_of_none (h : c.code = none) :
    awaitExit state c keep alarms = .waits (state c) keep alarms := by
  rw [awaitExit, h]

/-- The signals that are sent by an instant: the process is asked to end, and then it may be killed when
this is due. -/
inductive Receives (c : Child) (own : Option Float) (begun grace : Float) (pending : Bool) (now : Float) :
    List (Float × Signal) → Prop
  | terminate : Receives c own begun grace pending now [(begun, .terminate)]
  | kill {t : Float} (uninterrupted : pending = false) (due : c.KillDue own begun grace t) (past : t ≤ now) :
      Receives c own begun grace pending now [(begun, .terminate), (t, .kill)]

/-- The process was asked to end; its exits and the end of the grace period are waited for. -/
structure Asked (c : Child) (own : Option Float) (begun grace : Float) (a : Alone Termination Result) :
    Prop where
  calm : a.IsCalm
  signals : a.journal.signals = [(begun, .terminate)]
  found : c.behaviour.isGone .terminate = false
  next : ∃ child keep alarms, a.next = .waits (.asked child) keep alarms ∧ child.code = none ∧
    child.behaviour = c.behaviour
  elapses : ⟨begun + grace, Alarm.grace.number⟩ ∈ a.alarms
  exits : ∀ alarm ∈ a.alarms, alarm = ⟨begun + grace, Alarm.grace.number⟩ ∨
    ∃ e, alarm.number = (Alarm.exit e).number ∧
      c.EndsAt own [(begun, .terminate)] alarm.due (c.codeOf e)
  awaits : ∀ t code, c.EndsAt own [(begun, .terminate)] t code →
    (∃ alarm ∈ a.alarms, alarm.due = t) ∧ (t.isNaN = true ∨ IsInstant t ∧ a.now ≤ t)

/-- The process was killed, and its exits are waited for. -/
structure Killed (c : Child) (own : Option Float) (begun grace : Float) (pending : Bool)
    (a : Alone Termination Result) : Prop where
  calm : a.IsCalm
  uninterrupted : pending = false
  signals : Receives c own begun grace pending a.now a.journal.signals
  found : ∀ s, c.behaviour.isGone s = false
  next : ∃ child keep alarms, a.next = .waits (.killed child) keep alarms ∧ child.code = none ∧
    child.behaviour = c.behaviour
  exits : ∀ alarm ∈ a.alarms, ∃ e, alarm.number = (Alarm.exit e).number ∧
    c.EndsAt own a.journal.signals alarm.due (c.codeOf e)
  comes : c.behaviour.EndsWhenKilled → ∃ alarm ∈ a.alarms, alarm.due.isNaN = false

/-- The stages of a termination, with the turns that are left at most. -/
inductive Stage (c : Child) (own : Option Float) (begun grace : Float) (pending : Bool)
    (a : Alone Termination Result) : Nat → Prop
  | asked (h : Asked c own begun grace a) : Stage c own begun grace pending a 2
  | killed (h : Killed c own begun grace pending a) : Stage c own begun grace pending a 1
  | exited {code : Int} (next : a.next = .ends (.exited code))
      (signals : Receives c own begun grace pending a.now a.journal.signals)
      (ended : ∃ t, t ≤ a.now ∧ c.EndsAt own a.journal.signals t code) :
      Stage c own begun grace pending a 0
  | givenUp (next : a.next = .ends .interrupted) (interrupted : pending = true)
      (signals : a.journal.signals = [(begun, .terminate)])
      (found : c.behaviour.isGone .terminate = false) (elapsed : begun + grace ≤ a.now) :
      Stage c own begun grace pending a 0

theorem grace_ne_exit (e : Exit) : Alarm.grace.number ≠ (Alarm.exit e).number := by
  cases e <;> nofun

/-- An alarm for an exit rings when the process ends by that exit. -/
theorem Asked.endsAt (h : Asked c own begun grace a) {alarm : Activity.Alarm} (halarm : alarm ∈ a.alarms)
    {e : Exit} (hnumber : alarm.number = (Alarm.exit e).number) :
    c.EndsAt own [(begun, .terminate)] alarm.due (c.codeOf e) := by
  obtain rfl | ⟨e', hnumber', hends⟩ := h.exits alarm halarm
  · exact absurd hnumber (grace_ne_exit e)
  · exact Child.number_injective (hnumber.symm.trans hnumber') ▸ hends

theorem Killed.endsAt (h : Killed c own begun grace pending a) {alarm : Activity.Alarm}
    (halarm : alarm ∈ a.alarms) {e : Exit} (hnumber : alarm.number = (Alarm.exit e).number) :
    c.EndsAt own a.journal.signals alarm.due (c.codeOf e) := by
  obtain ⟨e', hnumber', hends⟩ := h.exits alarm halarm
  exact Child.number_injective (hnumber.symm.trans hnumber') ▸ hends

theorem Receives.later {t : Float} (h : Receives c own begun grace pending t signals) (ht : IsInstant t)
    (hnow : IsInstant now) (hle : t ≤ now) : Receives c own begun grace pending now signals := by
  cases h with
  | terminate => exact .terminate
  | kill uninterrupted due past =>
    refine .kill uninterrupted due (le_of_le_of_tick ht hnow past ?_)
    rwa [le_iff_tick ht hnow] at hle

/-- A reply with the exit code ends the termination, if the process has ended by then. -/
theorem Stage.accept_exited {reply : Reply Termination Result} {code : Int}
    (hnext : reply.next = .ends (.exited code))
    (hsignals : (a.accept reply).journal.signals = signals)
    (hreceives : Receives c own begun grace pending a.now signals)
    (hended : ∃ t, t ≤ a.now ∧ c.EndsAt own signals t code) :
    Stage c own begun grace pending (a.accept reply) 0 := by
  subst hsignals
  exact .exited hnext hreceives hended

section Turns

variable {child : Child} (hrunning : child.code = none) (hbehaviour : child.behaviour = c.behaviour)
  (rings : a.Rings now wake)
include hrunning hbehaviour rings

/-- An exit that is heard of is one that was waited for. -/
theorem ended_of_hear (hexits : ∀ alarm ∈ a.alarms, ∀ e, alarm.number = (Alarm.exit e).number →
      c.EndsAt own signals alarm.due (c.codeOf e)) {code : Int}
    (hcode : (child.hear wake.rung).code = some code) : ∃ t, t ≤ now ∧ c.EndsAt own signals t code := by
  obtain ⟨e, hrung, rfl⟩ := Child.hear_eq_some hrunning hcode
  obtain ⟨alarm, halarm, hdue, hnumber⟩ := (rings.rung _).1 hrung
  rw [Child.codeOf_congr hbehaviour]
  exact ⟨_, hdue, hexits alarm halarm e hnumber⟩

/-- When an alarm rings after the process was killed, the process has ended. -/
theorem Killed.turn (h : Killed c own begun grace pending a) :
    Stage c own begun grace pending
      ((a.moved now).accept ((Termination.killed child).resume wake pending)) 0 := by
  -- some exit has rung, as nothing else is waited for
  obtain ⟨number, hnumber⟩ := List.exists_mem_of_ne_nil _ rings.ne_nil
  obtain ⟨alarm, halarm, -, rfl⟩ := (rings.rung _).1 hnumber
  obtain ⟨e, he, -⟩ := h.exits alarm halarm
  obtain ⟨code, hcode⟩ := Option.isSome_iff_exists.1 (Child.hear_isSome (c := child) (he ▸ hnumber))
  have hreply : (Termination.killed child).resume wake pending = { next := .ends (.exited code) } := by
    simp only [resume, rings.calm, awaitExit_of_some hcode, Bool.false_eq_true, if_false]
  rw [hreply]
  apply Stage.accept_exited rfl (Alone.signals_accept_of_nil _ rfl)
  · exact h.signals.later h.calm.now rings.instant rings.later
  · exact ended_of_hear hrunning hbehaviour rings (fun _ halarm _ ↦ h.endsAt halarm) hcode

/-- A process that survives the kill signal is waited for. -/
theorem Asked.killed (h : Asked c own begun grace a) (survives : child.Survives .kill)
    {reply : Reply Termination Result}
    (hsignals : ((a.moved now).accept reply).journal.signals = [(begun, .terminate), (now, .kill)])
    (hreceives : Receives c own begun grace false now [(begun, .terminate), (now, .kill)])
    (hnext : reply.next = .waits (.killed (child.send .kill).1) exitAlarms (child.send .kill).2) :
    Killed c own begun grace false ((a.moved now).accept reply) where
  calm := ⟨rings.instant, h.calm.interruptions⟩
  uninterrupted := rfl
  signals := hsignals ▸ hreceives
  found := by
    intro s
    cases s with
    | terminate => exact h.found
    | kill => exact hbehaviour ▸ survives.found
  next := ⟨_, _, _, hnext, survives.running, survives.behaviour.trans hbehaviour⟩
  exits := by
    intro alarm halarm
    rw [hsignals]
    obtain ⟨hkept, hexit⟩ | ⟨number, delay, hset, rfl⟩ := (Alone.mem_alarms_accept _ hnext).1 halarm
    · obtain rfl | ⟨e, hnumber, hends⟩ := h.exits alarm (List.mem_filter.1 hkept).1
      · exact absurd hexit (show Alarm.grace.number ∉ exitAlarms by decide)
      · exact ⟨e, hnumber, hends.mono (List.subset_append_left _ [(now, Signal.kill)])⟩
    · obtain ⟨rfl, hends⟩ := survives.endsAt own hset
        (show (now, Signal.kill) ∈ [(begun, Signal.terminate), (now, .kill)] by simp)
      have hends' := hends.congr hrunning hbehaviour
      rw [Child.codeOf_congr hbehaviour] at hends'
      exact ⟨_, rfl, hends'⟩
  comes := by
    rintro (hgone | ⟨delay, hdelay, hnan⟩)
    · have hfound : c.behaviour.isGone .kill = false := hbehaviour ▸ survives.found
      cases hgone.symm.trans hfound
    · obtain ⟨hset, hpositive⟩ := survives.complete delay (hbehaviour ▸ hdelay)
      have hdue := (isInstant_add rings.instant (nonneg_of_not_le hnan hpositive)).1
      exact ⟨_, (Alone.mem_alarms_accept _ hnext).2 (.inr ⟨_, _, hset, rfl⟩), hdue.not_isNaN⟩

omit hrunning in
/-- When the grace period has passed, the process is killed. -/
theorem Asked.kill (h : Asked c own begun grace a) (due : c.KillDue own begun grace now)
    (hended : ∀ code, child.code = some code →
      ∃ t, t ≤ now ∧ c.EndsAt own [(begun, .terminate)] t code) :
    ∃ n, n < 2 ∧ Stage c own begun grace false
      ((a.moved now).accept { notes := [killingNote child, .kill]
                              next := awaitExit .killed child.kill.1 exitAlarms child.kill.2 }) n := by
  have hreceives : Receives c own begun grace false now [(begun, .terminate), (now, .kill)] :=
    .kill rfl due (le_self rings.instant.not_isNaN)
  have hsignals (next : Activity.Next Termination Result) :
      ((a.moved now).accept { notes := [killingNote child, .kill], next }).journal.signals =
        [(begun, .terminate), (now, .kill)] := by
    rw [Alone.signals_accept]
    exact congrArg (· ++ [(now, Signal.kill)]) h.signals
  cases hcode : child.code with
  | some code =>
    -- it has exited at the very instant
    obtain ⟨t, ht, hends⟩ := hended code hcode
    have hkill : child.kill = (child, []) := by simp only [Child.kill, Child.signalled, hcode]; rfl
    rw [hkill]
    refine ⟨0, Nat.zero_lt_two, .accept_exited (awaitExit_of_some hcode) (hsignals _) hreceives ?_⟩
    exact ⟨t, ht, hends.mono (List.subset_append_left _ [(now, Signal.kill)])⟩
  | none =>
    rw [Child.kill_eq_send]
    obtain ⟨code, hsent, hends⟩ | survives := Child.ends_or_survives hcode .kill
    · refine ⟨0, Nat.zero_lt_two, .accept_exited (awaitExit_of_some hsent) (hsignals _) hreceives ?_⟩
      have hkilled := hends now own [(begun, .terminate), (now, .kill)]
        (List.mem_cons_of_mem _ List.mem_cons_self)
      exact ⟨now, le_self rings.instant.not_isNaN, hkilled.congr hcode hbehaviour⟩
    · refine ⟨1, Nat.one_lt_two, .killed ?_⟩
      exact h.killed hcode hbehaviour rings survives (hsignals _) hreceives
        (awaitExit_of_none survives.running)

/-- When the first alarm rings, the process has ended, or the grace period has and the process is killed,
unless the termination is given up. -/
theorem Asked.turn (h : Asked c own begun grace a) (pending : Bool) :
    ∃ n, n < 2 ∧ Stage c own begun grace pending
      ((a.moved now).accept ((Termination.asked child).resume wake pending)) n := by
  have hended (code : Int) (hcode : (child.hear wake.rung).code = some code) :=
    ended_of_hear hrunning hbehaviour rings (fun _ halarm _ ↦ h.endsAt halarm) hcode
  have hheard : (child.hear wake.rung).behaviour = c.behaviour :=
    (child.hear_frame wake.rung).1.trans hbehaviour
  have hcalm : ¬wake.interrupted = true := by rw [rings.calm]; nofun
  rw [resume, if_neg hcalm]
  by_cases hgrace : Alarm.grace.number ∈ wake.rung
  · have helapsed : begun + grace ≤ now := by
      obtain ⟨alarm, halarm, hdue, hnumber⟩ := (rings.rung _).1 hgrace
      obtain rfl | ⟨e, hnumber', -⟩ := h.exits alarm halarm
      · exact hdue
      · exact absurd (hnumber.symm.trans hnumber') (grace_ne_exit e)
    dsimp only
    rw [if_pos (List.contains_iff_mem.2 hgrace)]
    cases hpending : pending with
    | true =>
      refine ⟨0, Nat.zero_lt_two, .givenUp rfl rfl ?_ h.found helapsed⟩
      exact (Alone.signals_accept_of_nil _ rfl).trans h.signals
    | false =>
      apply h.kill hheard rings ⟨helapsed, ?_⟩ hended
      intro x code hends
      obtain ⟨⟨alarm, halarm, rfl⟩, hnan | ⟨hinstant, hlater⟩⟩ := h.awaits x code hends
      · exact (not_lt_of_isNaN hnan now).1
      · exact rings.first alarm halarm hinstant hlater
  · -- so an exit has rung
    obtain ⟨number, hnumber⟩ := List.exists_mem_of_ne_nil _ rings.ne_nil
    obtain ⟨alarm, halarm, -, rfl⟩ := (rings.rung _).1 hnumber
    obtain rfl | ⟨e, he, -⟩ := h.exits alarm halarm
    · exact absurd hnumber hgrace
    obtain ⟨code, hcode⟩ := Option.isSome_iff_exists.1 (Child.hear_isSome (c := child) (he ▸ hnumber))
    dsimp only
    rw [if_neg (mt List.contains_iff_mem.1 hgrace), awaitExit_of_some hcode]
    refine ⟨0, Nat.zero_lt_two, .accept_exited rfl (Alone.signals_accept_of_nil _ rfl) ?_ ?_⟩
    · exact h.signals ▸ .terminate
    · exact h.signals ▸ hended code hcode

end Turns

/-- What a termination waits for comes: the grace period passes, and the process ends if it is killed. -/
def Comes (c : Child) (begun grace : Float) (pending : Bool) : Prop :=
  (begun + grace).isNaN = false ∧ (pending = true ∨ c.behaviour.EndsWhenKilled)

/-- A termination that has not ended goes on to a later stage, or is stuck because what it waits for
never comes. -/
theorem Stage.turn {n : Nat} (h : Stage c own begun grace pending a n) (turns : Nat) :
    (Comes c begun grace pending → n = 0) ∧
        a.run (fun _ t wake ↦ t.resume wake pending) (turns + 1) = a ∨
      ∃ b m, m < n ∧ Stage c own begun grace pending b m ∧
        a.run (fun _ t wake ↦ t.resume wake pending) (turns + 1) =
          b.run (fun _ t wake ↦ t.resume wake pending) turns := by
  cases h with
  | asked h =>
    obtain ⟨child, keep, alarms, hnext, hrunning, hbehaviour⟩ := h.next
    obtain ⟨⟨-, hnever⟩, hrun⟩ | ⟨now, wake, ⟨-, rings⟩, hrun⟩ :=
      Alone.run_waits h.calm hnext (fun _ t wake ↦ t.resume wake pending) turns
    · refine .inl ⟨?_, hrun⟩
      rintro ⟨hpasses, -⟩
      have hnan := hnever _ h.elapses
      dsimp only at hnan
      exact absurd hnan (ne_true_of_eq_false hpasses)
    · obtain ⟨m, hm, hstage⟩ := h.turn hrunning hbehaviour rings pending
      exact .inr ⟨_, m, hm, hstage, hrun⟩
  | killed h =>
    obtain ⟨child, keep, alarms, hnext, hrunning, hbehaviour⟩ := h.next
    obtain ⟨⟨-, hnever⟩, hrun⟩ | ⟨now, wake, ⟨-, rings⟩, hrun⟩ :=
      Alone.run_waits h.calm hnext (fun _ t wake ↦ t.resume wake pending) turns
    · refine .inl ⟨?_, hrun⟩
      rintro ⟨-, hpending | hends⟩
      · cases h.uninterrupted.symm.trans hpending
      · obtain ⟨alarm, halarm, hnan⟩ := h.comes hends
        exact absurd (hnever alarm halarm) (ne_true_of_eq_false hnan)
    · exact .inr ⟨_, 0, Nat.zero_lt_one, h.turn hrunning hbehaviour rings, hrun⟩
  | exited next => exact .inl ⟨fun _ ↦ rfl, Alone.run_of_ends next _ _⟩
  | givenUp next => exact .inl ⟨fun _ ↦ rfl, Alone.run_of_ends next _ _⟩

/-- At any time a termination is at some stage, and at its end when there were turns enough. -/
theorem Stage.run {n : Nat} (h : Stage c own begun grace pending a n) (turns : Nat) :
    ∃ m, Stage c own begun grace pending (a.run (fun _ t wake ↦ t.resume wake pending) turns) m ∧
      (Comes c begun grace pending → n ≤ turns → m = 0) := by
  induction turns generalizing a n with
  | zero => exact ⟨n, h, fun _ hn ↦ Nat.le_zero.1 hn⟩
  | succ turns ih =>
    obtain ⟨hcomes, hrun⟩ | ⟨b, m, hm, hb, hrun⟩ := h.turn turns
    · rw [hrun]
      exact ⟨n, h, fun h _ ↦ hcomes h⟩
    · rw [hrun]
      obtain ⟨k, hk, hlast⟩ := ih hb
      exact ⟨k, hk, fun hcomes hn ↦ hlast hcomes (by omega)⟩

/-! ## What a stage tells -/

theorem Asked.unended (h : Asked c own begun grace a) : a.result? = none := by
  obtain ⟨child, keep, alarms, hnext, -⟩ := h.next
  rw [Alone.result?, hnext]

theorem Killed.unended (h : Killed c own begun grace pending a) : a.result? = none := by
  obtain ⟨child, keep, alarms, hnext, -⟩ := h.next
  rw [Alone.result?, hnext]

theorem Receives.exists_kills (h : Receives c own begun grace pending now signals) :
    ∃ kills, signals = (begun, .terminate) :: kills ∧ (kills = [] ∨ pending = false ∧
      ∃ t, t ≤ now ∧ kills = [(t, .kill)] ∧ c.KillDue own begun grace t) := by
  cases h with
  | terminate => exact ⟨[], rfl, .inl rfl⟩
  | @kill t uninterrupted due past => exact ⟨_, rfl, .inr ⟨uninterrupted, t, past, rfl, due⟩⟩

section Told

variable {n : Nat} (h : Stage c own begun grace pending a n)
include h

theorem Stage.receives : Receives c own begun grace pending a.now a.journal.signals := by
  cases h with
  | asked h => exact h.signals ▸ .terminate
  | killed h => exact h.signals
  | exited next signals => exact signals
  | givenUp next interrupted signals => exact signals ▸ .terminate

theorem Stage.ended {code : Int} (hresult : a.result? = some (.exited code)) :
    ∃ t, t ≤ a.now ∧ c.EndsAt own a.journal.signals t code := by
  cases h with
  | asked h => cases h.unended.symm.trans hresult
  | killed h => cases h.unended.symm.trans hresult
  | exited next signals ended =>
    rw [Alone.result?, next] at hresult
    cases hresult
    exact ended
  | givenUp next =>
    rw [Alone.result?, next] at hresult
    cases hresult

theorem Stage.interrupted (hresult : a.result? = some .interrupted) :
    pending = true ∧ begun + grace ≤ a.now := by
  cases h with
  | asked h => cases h.unended.symm.trans hresult
  | killed h => cases h.unended.symm.trans hresult
  | exited next =>
    rw [Alone.result?, next] at hresult
    cases hresult
  | givenUp next interrupted signals found elapsed => exact ⟨interrupted, elapsed⟩

/-- A process that vanished before a signal was sent ends the termination at once. -/
theorem Stage.exited_of_isGone {t : Float} {s : Signal} (hsent : (t, s) ∈ a.journal.signals)
    (hgone : c.behaviour.isGone s = true) : ∃ code, a.result? = some (.exited code) := by
  cases h with
  | asked h =>
    rw [h.signals] at hsent
    cases List.mem_singleton.1 hsent
    cases hgone.symm.trans h.found
  | killed h => cases hgone.symm.trans (h.found s)
  | exited next => exact ⟨_, by rw [Alone.result?, next]⟩
  | givenUp next interrupted signals found =>
    rw [signals] at hsent
    cases List.mem_singleton.1 hsent
    cases hgone.symm.trans found

end Told

theorem Stage.isSome_result (h : Stage c own begun grace pending a 0) : a.result?.isSome = true := by
  cases h with
  | exited next | givenUp next =>
    rw [Alone.result?, next]
    rfl

end Stages

/-! ## Terminations by activities on their own -/

/-- An activity on its own takes over a process at an instant; from then on the process exits on its own
at an instant that is settled, if at all. -/
def takeOver {ι ρ : Type} (own : Option Float) (begun : Float) (reply : Reply ι ρ) : Alone ι ρ :=
  Alone.accept
    { now := begun, alarms := own.toList.map fun t ↦ ⟨t, (Alarm.exit .own).number⟩, interruptions := [],
      journal := [], next := reply.next }
    reply

theorem mem_alarms_takeOver {ι ρ : Type} {own : Option Float} {begun : Float} {reply : Reply ι ρ} {state : ι}
    {set : List (Nat × Float)} (h : reply.next = .waits state exitAlarms set) {alarm : Activity.Alarm} :
    alarm ∈ (takeOver own begun reply).alarms ↔
      (∃ t, own = some t ∧ alarm = ⟨t, (Alarm.exit .own).number⟩) ∨
        ∃ number delay, (number, delay) ∈ set ∧ alarm = ⟨begun + delay, number⟩ := by
  rw [takeOver, Alone.mem_alarms_accept _ h]
  apply or_congr_left
  have hkept : (Alarm.exit .own).number ∈ exitAlarms := by decide
  constructor
  · rintro ⟨hmem, -⟩
    obtain ⟨t, ht, rfl⟩ := List.mem_map.1 hmem
    exact ⟨t, Option.mem_toList.1 ht, rfl⟩
  · rintro ⟨t, ht, rfl⟩
    exact ⟨List.mem_map.2 ⟨t, Option.mem_toList.2 ht, rfl⟩, hkept⟩

/-- The termination of a process by an activity on its own. -/
def alone (c : Child) (own : Option Float) (begun grace : Float) (pending : Bool) (turns : Nat) :
    Alone Termination Result :=
  (takeOver own begun (start c grace)).run (fun _ t wake ↦ t.resume wake pending) turns

section Begun

variable {begun grace : Float} (hbegun : IsInstant begun) (hown : ∀ t ∈ own, IsInstant t ∧ begun ≤ t)
  (hrunning : c.code = none)
include hbegun hown hrunning

/-- A process that survives the request to end is waited for. -/
theorem asked_takeOver (survives : c.Survives .terminate) {child : Child} (hchild : child.code = none)
    (hbehaviour : child.behaviour = c.behaviour) {reply : Reply Termination Result}
    (hnotes : reply.notes = [terminatingNote c, .terminate])
    (hnext : reply.next = .waits (.asked child) exitAlarms
      ((c.send .terminate).2 ++ [(Alarm.grace.number, grace)])) :
    Asked c own begun grace (takeOver own begun reply) where
  calm := ⟨hbegun, rfl⟩
  signals := by
    rw [takeOver, Alone.signals_accept, hnotes]
    rfl
  found := survives.found
  next := ⟨child, _, _, hnext, hchild, hbehaviour⟩
  elapses := by
    apply (mem_alarms_takeOver hnext).2
    exact .inr ⟨_, _, List.mem_append_right _ List.mem_cons_self, rfl⟩
  exits := by
    intro alarm halarm
    obtain ⟨t, ht, rfl⟩ | ⟨number, delay, hset, rfl⟩ := (mem_alarms_takeOver hnext).1 halarm
    · exact .inr ⟨.own, rfl, .own ht⟩
    · obtain hset | hset := List.mem_append.1 hset
      · obtain ⟨rfl, hends⟩ := survives.endsAt (t := begun) own hset List.mem_cons_self
        exact .inr ⟨_, rfl, hends⟩
      · cases List.mem_singleton.1 hset
        exact .inl rfl
  awaits := by
    intro t code hends
    cases hends with
    | already h => cases hrunning.symm.trans h
    | own h => exact ⟨⟨_, (mem_alarms_takeOver hnext).2 (.inl ⟨t, h, rfl⟩), rfl⟩, .inr (hown t h)⟩
    | vanished h gone =>
      cases List.mem_singleton.1 h
      cases survives.found.symm.trans gone
    | @obeyed t delay s h found hdelay =>
      cases List.mem_singleton.1 h
      obtain ⟨hset, hpositive⟩ := survives.complete delay hdelay
      have hafter : after begun delay = begun + delay := if_neg hpositive
      have hmem : ⟨begun + delay, (Alarm.exit Exit.terminated).number⟩ ∈ (takeOver own begun reply).alarms :=
        (mem_alarms_takeOver hnext).2 (.inr ⟨_, _, List.mem_append_left _ hset, rfl⟩)
      exact hafter ▸ ⟨⟨_, hmem, rfl⟩, isNaN_or_later hbegun hpositive⟩

theorem start_stage (grace : Float) (pending : Bool) :
    ∃ n, n ≤ 2 ∧ Stage c own begun grace pending (takeOver own begun (start c grace)) n := by
  have hstart : start c grace = { notes := [terminatingNote c, .terminate]
                                  next := awaitExit .asked (askToEnd c grace).1 exitAlarms
                                    (askToEnd c grace).2 } := by
    rw [start, hrunning]
  have hask : askToEnd c grace = ((c.send .terminate).1.await.1,
      (c.send .terminate).2 ++ (Alarm.grace.number, grace) :: (c.send .terminate).1.await.2) := by
    rw [askToEnd, Child.terminate_eq_send]
  rw [hstart, hask]
  obtain ⟨code, hsent, hends⟩ | survives := Child.ends_or_survives hrunning .terminate
  · have hawait : (c.send .terminate).1.await = ((c.send .terminate).1, []) := by
      simp [Child.await, hsent]
    rw [hawait]
    refine ⟨0, Nat.zero_le 2, .accept_exited (awaitExit_of_some hsent) rfl .terminate ?_⟩
    exact ⟨begun, le_self hbegun.not_isNaN, hends _ _ _ List.mem_cons_self⟩
  · obtain ⟨halarms, hcode, hframe⟩ := Child.await_idle survives.awaited
    have hchild := hcode.trans survives.running
    rw [halarms]
    refine ⟨2, le_rfl, .asked ?_⟩
    exact asked_takeOver hbegun hown hrunning survives hchild (hframe.trans survives.behaviour) rfl
      (awaitExit_of_none hchild)

end Begun

/-- A process that has exited is left alone. -/
theorem alone_of_exited {code : Int} (h : c.code = some code) (own : Option Float) (begun grace : Float)
    (pending : Bool) (turns : Nat) :
    let a := alone c own begun grace pending turns
    a.result? = some (.exited code) ∧ a.now = begun ∧ a.journal = [] := by
  have hstart : start c grace = { next := .ends (.exited code) } := by rw [start, h]
  have hnext : (takeOver own begun (start c grace)).next = .ends (.exited code) := by rw [hstart]; rfl
  rw [alone, Alone.run_of_ends hnext, hstart]
  exact ⟨rfl, rfl, rfl⟩

/-- The protocol of a termination.  The termination returns only when the process has ended, for one of
the reasons that there are.  A process that has exited before gets no signal.  Any other one is asked to end
exactly once, and first of all; then it is killed once at most, when the grace period has passed and the
process has not ended before, and never where the activity is being interrupted itself.  A process that
has vanished before a signal makes the termination return.  It is given up only by an activity that is
being interrupted, when the grace period has passed; and it does come to an end, if the grace period
passes and the kill signal ends the process. -/
theorem alone_protocol (c : Child) (own : Option Float) {begun : Float} (hbegun : IsInstant begun)
    (hown : ∀ t ∈ own, IsInstant t ∧ begun ≤ t) (grace : Float) (pending : Bool) (turns : Nat) :
    let a := alone c own begun grace pending turns
    (∀ code, a.result? = some (.exited code) →
      ∃ t, t ≤ a.now ∧ c.EndsAt own a.journal.signals t code) ∧
    (∀ code, c.code = some code → a.result? = some (.exited code) ∧ a.journal = []) ∧
    (c.code = none → ∃ kills, a.journal.signals = (begun, .terminate) :: kills ∧
      (kills = [] ∨ pending = false ∧
        ∃ t, t ≤ a.now ∧ kills = [(t, .kill)] ∧ c.KillDue own begun grace t)) ∧
    (∀ t s, (t, s) ∈ a.journal.signals → c.behaviour.isGone s = true →
      ∃ code, a.result? = some (.exited code)) ∧
    (a.result? = some .interrupted → pending = true ∧ begun + grace ≤ a.now) ∧
    (2 ≤ turns → (begun + grace).isNaN = false → pending = true ∨ c.behaviour.EndsWhenKilled →
      a.result?.isSome = true) := by
  intro a
  cases hcode : c.code with
  | some code =>
    obtain ⟨hresult, hnow, hjournal⟩ :
        a.result? = some (.exited code) ∧ a.now = begun ∧ a.journal = [] :=
      alone_of_exited hcode own begun grace pending turns
    rw [hresult, hnow, hjournal]
    refine ⟨?_, ?_, nofun, nofun, nofun, fun _ _ _ ↦ rfl⟩
    · rintro _ ⟨⟩
      exact ⟨begun, le_self hbegun.not_isNaN, .already hcode begun⟩
    · rintro _ ⟨⟩
      exact ⟨rfl, rfl⟩
  | none =>
    obtain ⟨n, hn, hstart⟩ := start_stage hbegun hown hcode grace pending
    obtain ⟨m, hstage, hlast⟩ := hstart.run turns
    refine ⟨fun code ↦ hstage.ended, nofun, fun _ ↦ hstage.receives.exists_kills,
      fun t s ↦ hstage.exited_of_isGone, hstage.interrupted, ?_⟩
    intro hturns hpasses hends
    obtain rfl := hlast ⟨hpasses, hends⟩ (hn.trans hturns)
    exact hstage.isSome_result

/-- A process that is deaf to the request to end is killed when the grace period has passed. -/
theorem alone_protocol_deaf :
    let deaf : Child := { behaviour := { onTerminate := none, onKill := some 1.5 }, awaited := true }
    let a := alone deaf (some 100.0) 0.0 0.25 false 2
    IsInstant 0.0 ∧ (IsInstant 100.0 ∧ (0.0 : Float) ≤ 100.0) ∧ a.result? = some (.exited (-9)) ∧
      (∃ t, t ≤ a.now ∧ deaf.EndsAt (some 100.0) a.journal.signals t (-9)) ∧
      ∃ t, t ≤ a.now ∧ a.journal.signals = [(0.0, .terminate), (t, .kill)] ∧
        deaf.KillDue (some 100.0) 0.0 0.25 t := by
  intro deaf a
  have hbegun : IsInstant 0.0 := by decide +kernel
  have hown : IsInstant 100.0 ∧ (0.0 : Float) ≤ 100.0 := by decide +kernel
  have hresult : a.result? = some (.exited (-9)) := by decide +kernel
  have hlength : a.journal.signals.length = 2 := by decide +kernel
  obtain ⟨hended, -, hsignals, -⟩ := alone_protocol deaf (some 100.0) hbegun
    (fun t ht ↦ Option.some_inj.1 ht ▸ hown) 0.25 false 2
  refine ⟨hbegun, hown, hresult, hended _ hresult, ?_⟩
  obtain ⟨kills, hkills, rfl | ⟨-, t, ht, rfl, hdue⟩⟩ := hsignals rfl
  · cases hlength.symm.trans (congrArg List.length hkills)
  · exact ⟨t, ht, hkills, hdue⟩

/-! ## Terminations by interrupted executions -/

/-- An execution that terminates its process. -/
def execution : Termination → Execution
  | .asked c | .killed c => .ending c

theorem interrupt_mirrors (c : Child) :
    (Execution.interrupt c).notes = (start c gracePeriod).notes ∧
      (Execution.interrupt c).next =
        (start c gracePeriod).next.map execution fun _ ↦ Job.Result.interrupted := by
  unfold Execution.interrupt start awaitExit
  cases c.code with
  | some code => exact ⟨rfl, rfl⟩
  | none =>
    refine ⟨rfl, ?_⟩
    dsimp only
    cases (askToEnd c gracePeriod).1.code <;> rfl

theorem resume_pending_notes (c : Child) (wake : Wake) : ((asked c).resume wake true).notes = [] := by
  unfold resume
  split
  · rfl
  · dsimp only
    split <;> rfl

/-- Where the activity is being interrupted itself, the first alarm ends the termination. -/
theorem Asked.ends {begun grace : Float} {a : Alone Termination Result} {now : Float} {wake : Wake}
    {child : Child} (h : Asked c own begun grace a) (hrunning : child.code = none)
    (hbehaviour : child.behaviour = c.behaviour) (rings : a.Rings now wake) :
    ∃ result, (asked child).resume wake true = { next := .ends result } := by
  obtain ⟨m, hm, hstage⟩ := h.turn hrunning hbehaviour rings true
  have hnotes := resume_pending_notes child wake
  generalize (asked child).resume wake true = reply at hstage hnotes
  obtain ⟨notes, next⟩ := reply
  obtain rfl : notes = [] := hnotes
  cases hstage with
  | asked => exact absurd hm (lt_irrefl 2)
  | killed h => cases h.uninterrupted
  | exited next | givenUp next => exact ⟨_, congrArg _ next⟩

/-- An execution that waits as a termination does ends with it, at the first alarm. -/
theorem Asked.run_mirrored {begun grace : Float} {a : Alone Termination Result}
    {other : Alone Execution Job.Result} (h : Asked c own begun grace a)
    (mirrors : Alone.Mirrors execution (fun _ ↦ Job.Result.interrupted) a other)
    (hjournal : other.journal = a.journal) (turns : Nat) :
    let ended := a.run (fun _ t wake ↦ t.resume wake true) turns
    let e := other.run (fun _ e wake ↦ e.resume wake) turns
    e.now = ended.now ∧ e.journal = ended.journal ∧
      e.result? = ended.result?.map fun _ ↦ Job.Result.interrupted := by
  cases turns with
  | zero => exact ⟨mirrors.now, hjournal, mirrors.result?⟩
  | succ turns =>
    obtain ⟨child, keep, alarms, hwaits, hrunning, hbehaviour⟩ := h.next
    have hwake' := mirrors.wake?
    obtain ⟨⟨hwake, -⟩, hrun⟩ | ⟨now, wake, ⟨hwake, rings⟩, hrun⟩ :=
      Alone.run_waits h.calm hwaits (fun _ t wake ↦ t.resume wake true) turns
    · rw [hwake] at hwake'
      rw [hrun, Alone.run, hwake']
      exact ⟨mirrors.now, hjournal, mirrors.result?⟩
    · -- both note nothing when the alarm rings
      obtain ⟨result, hreply⟩ := h.ends hrunning hbehaviour rings
      rw [hwake] at hwake'
      rw [hrun, hreply, Alone.run_of_ends rfl, Alone.run, hwake']
      dsimp only [Option.map_some, execution, Execution.resume]
      rw [Alone.run_of_ends rfl]
      refine ⟨rfl, ?_, rfl⟩
      exact congrArg (· ++ []) hjournal

/-- An interrupted execution terminates its process as an activity that is being interrupted does, and ends
with it. -/
theorem run_interrupt {begun : Float} (hbegun : IsInstant begun)
    (hown : ∀ t ∈ own, IsInstant t ∧ begun ≤ t) (turns : Nat) :
    let a := alone c own begun gracePeriod true turns
    let e := (takeOver own begun (Execution.interrupt c)).run (fun _ e wake ↦ e.resume wake) turns
    e.now = a.now ∧ e.journal = a.journal ∧
      e.result? = a.result?.map fun _ ↦ Job.Result.interrupted := by
  obtain ⟨hnotes, hnext⟩ := interrupt_mirrors c
  rw [alone]
  generalize hfirst : takeOver own begun (start c gracePeriod) = first
  generalize hother : takeOver own begun (Execution.interrupt c) = other
  have mirrors : Alone.Mirrors execution (fun _ ↦ Job.Result.interrupted) first other := by
    rw [← hfirst, ← hother]
    exact Alone.Mirrors.accept ⟨rfl, rfl, rfl, hnext, rfl⟩ hnext (congrArg _ hnotes)
  have hjournal : other.journal = first.journal := by
    rw [← hfirst, ← hother, takeOver, takeOver, Alone.accept, Alone.accept, hnotes]
  have hsame : other.now = first.now ∧ other.journal = first.journal ∧
      other.result? = first.result?.map fun _ ↦ Job.Result.interrupted :=
    ⟨mirrors.now, hjournal, mirrors.result?⟩
  have hover {result : Result} (h : first.next = .ends result) :
      first.run (fun _ t wake ↦ t.resume wake true) turns = first ∧
        other.run (fun _ e wake ↦ e.resume wake) turns = other := by
    have hends : other.next = .ends .interrupted := by rw [mirrors.next, h]; rfl
    exact ⟨Alone.run_of_ends h _ turns, Alone.run_of_ends hends _ turns⟩
  cases hcode : c.code with
  | some code =>
    obtain ⟨hrun, hrun'⟩ := hover (by rw [← hfirst, start, hcode]; rfl)
    rw [hrun, hrun']
    exact hsame
  | none =>
    obtain ⟨n, -, hstage⟩ := start_stage hbegun hown hcode gracePeriod true
    rw [hfirst] at hstage
    cases hstage with
    | killed h => cases h.uninterrupted
    | exited next | givenUp next =>
      obtain ⟨hrun, hrun'⟩ := hover next
      rw [hrun, hrun']
      exact hsame
    | asked h => exact h.run_mirrored mirrors hjournal turns

end Termination

end Job

end Testbed

import Testbed.Proofs.Clock.Instant
import Testbed.Proofs.Run.Turns
import Testbed.Runner.Rehearsed

/-!
# Courses

What becomes of a component that a scripted runner tests depends on nothing but the instant at which
its work is started.  Each attempt takes the delay of the component, or is cut off by its time limit,
and the attempts follow each other without a pause.  The course of a component says this without any
queue: it is the outcome of the work and the instant at which the work ends.
-/

namespace Testbed

open Run Clock

/-- The runner answers for every component, or fails with a failure, after a time that is not
negative. -/
structure Script.Orderly (script : Script) : Prop where
  delay (component : String) : 0 ≤ script.delay component
  answered (component : String) : ∀ ending ∈ script.entries component,
    (∃ answer, ending = .answered answer ∧ answer.status ∈ [.passed, .failed, .errored]) ∨
      ∃ failure, ending = .raised failure

/-- The setup of a run that a script answers. -/
def Script.setup (script : Script) (policy : Policy) : Setup Rehearsal.Shared Rehearsal.Invocation where
  runner := .scripted script
  policy := policy

namespace Run

/-- The role of a component in a run: what decides its course. -/
structure Role where
  policy : Policy
  script : Script
  component : String
  /-- How often the component was tested before. -/
  earlier : Nat

/-- The number of attempts behind the end of the work on a component. -/
def Finish.attempts : Finish → Nat
  | .outcome o => o.attempts.toNat
  | .interrupted | .failed _ => 0

namespace Role

variable (r : Role)

/-- The cue of an attempt, counted from one. -/
def cue (attempt : Nat) : Cue :=
  r.script.cue r.component (r.earlier + (attempt - 1))

def delay : Float :=
  r.script.delay r.component

@[simp]
theorem cue_aftermath (attempt : Nat) : (r.cue attempt).aftermath = none :=
  rfl

/-- When an attempt that starts at an instant is answered. -/
def alarm (start : Float) : Float :=
  if r.delay ≤ 0 then start else start + r.delay

/-- The time limit of an attempt is over at once. -/
def hurried (start : Float) : Bool :=
  match r.policy.timeout with
  | none => false
  | some limit => start + limit ≤ start

/-- The time limit of an attempt is over when the attempt is answered. -/
def late (start : Float) : Bool :=
  match r.policy.timeout with
  | none => false
  | some limit => start + limit ≤ r.alarm start

/-- When the time limit of an attempt is over; there may be none. -/
def cutoff (start : Float) : Float :=
  match r.policy.timeout with
  | none => start
  | some limit => if start + limit ≤ start then start else start + limit

/-- When an attempt ends. -/
def ends (start : Float) : Float :=
  if r.late start then r.cutoff start else r.alarm start

/-- When an attempt of work that is started at an instant starts, counted from zero. -/
def start (started : Float) : Nat → Float
  | 0 => started
  | n + 1 => r.ends (start started n)

/-- What an attempt amounts to. -/
def assessment (attempt : Nat) (start : Float) : Assessment :=
  assess r.policy (r.late start) 0 (if r.late start then .interrupted else (r.cue attempt).ending)

/-- The end of the work with an answer that counts. -/
def verdict (started : Float) (attempt : Nat) (now : Float) (answer : Answer) : Outcome where
  component := r.component
  status := answer.status
  duration := .real (now - started)
  diagnostics := answer.diagnostics
  attempts := attempt

/-- From an attempt on: the end of the work, and the instant of the end. -/
def courseFrom (started : Float) : (left attempt : Nat) → (start : Float) → Float × Finish
  | left, attempt, start =>
    match r.assessment attempt start with
    | .interrupted => (r.ends start, .interrupted)
    | .counted answer retryable =>
      let verdict := (r.ends start, .outcome (r.verdict started attempt (r.ends start) answer))
      if answer.status = .errored ∧ retryable then
        match left with
        | 0 => verdict
        | left + 1 => courseFrom started left (attempt + 1) (r.ends start)
      else verdict

/-- The end of work that is started at an instant, and the instant of the end. -/
def course (started : Float) : Float × Finish :=
  r.courseFrom started (attemptsLeft r.policy 1) 1 started

theorem attemptsLeft_succ {policy : Policy} {attempt left : Nat}
    (h : attemptsLeft policy attempt = left + 1) : attemptsLeft policy (attempt + 1) = left := by
  simp only [attemptsLeft] at h ⊢
  omega

/-! ## Instants of a course -/

variable {r} {start : Float}

theorem isInstant_alarm (hdelay : 0 ≤ r.delay) (h : IsInstant start) :
    IsInstant (r.alarm start) ∧ tick start ≤ tick (r.alarm start) := by
  unfold alarm
  split
  · exact ⟨h, le_rfl⟩
  · exact isInstant_add h hdelay

theorem isInstant_cutoff (h : IsInstant start) (hdelay : 0 ≤ r.delay) (hlate : r.late start = true) :
    IsInstant (r.cutoff start) ∧ tick start ≤ tick (r.cutoff start) ∧
      tick (r.cutoff start) ≤ tick (r.alarm start) := by
  have halarm := isInstant_alarm hdelay h
  unfold late at hlate
  unfold cutoff
  split at hlate
  · cases hlate
  · next limit hlimit =>
    rw [decide_eq_true_iff] at hlate
    split
    · exact ⟨h, le_rfl, halarm.2⟩
    · next hle =>
      have hcut : IsInstant (start + limit) := by
        refine isInstant_of_not_le h hle ?_
        by_contra hnan
        exact (not_le_of_isNaN (by simpa using hnan) _).1 hlate
      refine ⟨hcut, ?_, (le_iff_tick hcut halarm.1).1 hlate⟩
      rw [le_iff_tick hcut h] at hle
      omega

theorem isInstant_ends (hdelay : 0 ≤ r.delay) (h : IsInstant start) :
    IsInstant (r.ends start) ∧ tick start ≤ tick (r.ends start) := by
  unfold ends
  split
  · next hlate =>
    have hcut := isInstant_cutoff h hdelay hlate
    exact ⟨hcut.1, hcut.2.1⟩
  · exact isInstant_alarm hdelay h

/-- The work on a component does not end before the attempt underway. -/
theorem ends_le_courseFrom (hdelay : 0 ≤ r.delay) (started : Float) (left attempt : Nat)
    (h : IsInstant start) :
    tick (r.ends start) ≤ tick (r.courseFrom started left attempt start).1 := by
  induction left generalizing attempt start with
  | zero =>
    rw [courseFrom]
    split
    · exact le_rfl
    · dsimp only
      split <;> exact le_rfl
  | succ left ih =>
    rw [courseFrom]
    split
    · exact le_rfl
    · dsimp only
      split
      · have hends := (isInstant_ends hdelay h).1
        exact (isInstant_ends hdelay hends).2.trans (ih _ hends)
      · exact le_rfl

theorem isInstant_courseFrom (hdelay : 0 ≤ r.delay) (started : Float) (left attempt : Nat)
    (h : IsInstant start) : IsInstant (r.courseFrom started left attempt start).1 := by
  induction left generalizing attempt start with
  | zero =>
    rw [courseFrom]
    split
    · exact (isInstant_ends hdelay h).1
    · dsimp only
      split <;> exact (isInstant_ends hdelay h).1
  | succ left ih =>
    rw [courseFrom]
    split
    · exact (isInstant_ends hdelay h).1
    · dsimp only
      split
      · exact ih _ (isInstant_ends hdelay h).1
      · exact (isInstant_ends hdelay h).1

/-- Work takes a time that is not negative. -/
theorem isInstant_course (hdelay : 0 ≤ r.delay) (h : IsInstant start) :
    IsInstant (r.course start).1 ∧ tick start ≤ tick (r.course start).1 :=
  ⟨isInstant_courseFrom hdelay _ _ _ h,
    (isInstant_ends hdelay h).2.trans (ends_le_courseFrom hdelay _ _ _ h)⟩

/-- What is over at once is over when the attempt is answered. -/
theorem late_of_hurried (hdelay : 0 ≤ r.delay) (h : IsInstant start)
    (hurried : r.hurried start = true) : r.late start = true := by
  have halarm := isInstant_alarm hdelay h
  unfold Role.hurried at hurried
  unfold late
  split at hurried
  · cases hurried
  · rw [decide_eq_true_iff] at hurried ⊢
    exact le_of_le_of_tick h halarm.1 hurried halarm.2

end Role

end Run

end Testbed

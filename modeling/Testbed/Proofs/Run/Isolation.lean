import Testbed.Proofs.Clock.Exact
import Testbed.Proofs.Run.Completeness

/-!
# Isolation of components

What a report says of a component, the time that it took aside, depends on its own script and on the
policy for single attempts: not on the other components, on the order of the registry or on how many
are tested at once.  Where attempts have a time limit, the sums of the clock have to be exact, because
rounding could make an attempt late at one instant and not at another.
-/

namespace Testbed

open Run Clock

namespace Run

/-- What a report says of a component besides the time that it took. -/
structure Finding where
  status : Status
  diagnostics : Option String
  attempts : Int

def Outcome.finding (o : Outcome) : Finding :=
  ⟨o.status, o.diagnostics, o.attempts⟩

/-! ## Findings without a clock -/

/-- What attempts come to that are judged one after the other. -/
def findingFrom (judge : Nat → Assessment) : (left attempt : Nat) → Option Finding
  | left, attempt =>
    match judge attempt with
    | .interrupted => none
    | .counted answer retryable =>
      let finding : Finding := ⟨answer.status, answer.diagnostics, attempt⟩
      if answer.status = .errored ∧ retryable then
        match left with
        | 0 => some finding
        | left + 1 => findingFrom judge left (attempt + 1)
      else some finding

namespace Role

variable {r r' : Role} {started start : Float} {late : Bool} {attempt left : Nat} {o : Outcome}

/-- Judges an attempt that is late or not. -/
def judge (r : Role) (late : Bool) (attempt : Nat) : Assessment :=
  assess r.policy late 0 (if late then .interrupted else (r.cue attempt).ending)

/-- The delay of the component is not below the time limit of an attempt. -/
def outlasts (r : Role) : Bool :=
  match r.policy.timeout with
  | none => false
  | some limit => limit ≤ if r.delay ≤ 0 then 0 else r.delay

/-- What becomes of the component, whenever its work is started. -/
def finding (r : Role) : Option Finding :=
  findingFrom (r.judge r.outlasts) (attemptsLeft r.policy 1) 1

/-- The clock sums of an attempt that starts at an instant are exact, if there is a time limit. -/
def ExactAt (r : Role) (start : Float) : Prop :=
  ∀ limit ∈ r.policy.timeout, ExactSum start r.delay ∧ ExactSum start limit

/-- Where sums are exact, an attempt is late whenever it starts, or never. -/
theorem late_eq_outlasts (hstart : IsInstant start) (hexact : r.ExactAt start) :
    r.late start = r.outlasts := by
  rw [late, outlasts, alarm]
  cases hlimit : r.policy.timeout with
  | none => rfl
  | some limit =>
    obtain ⟨hsum, hlimitsum⟩ := hexact limit hlimit
    refine decide_eq_decide.2 ?_
    split
    · exact hlimitsum.le_self_iff hstart
    · next hpositive =>
      have hnan : r.delay.isNaN = false := hsum.not_isNaN.1
      exact hsum.le_iff hstart (isInstant_of_not_le isInstant_zero hpositive hnan) hlimitsum

theorem isInstant_start (hdelay : 0 ≤ r.delay) (h : IsInstant started) (n : Nat) :
    IsInstant (r.start started n) := by
  induction n with
  | zero => exact h
  | succ n ih => exact (isInstant_ends hdelay ih).1

/-- The work does not end before the attempt underway. -/
theorem le_attempts (h : (r.courseFrom started left attempt start).2 = .outcome o) :
    (attempt : Int) ≤ o.attempts := by
  induction left generalizing attempt start with
  | zero =>
    rw [courseFrom] at h
    split at h
    · cases h
    · dsimp only at h
      split at h <;> cases h <;> exact le_rfl
  | succ left ih =>
    rw [courseFrom] at h
    split at h
    · cases h
    · dsimp only at h
      split at h
      · have := ih h
        omega
      · cases h
        exact le_rfl

/-- Attempts that are all late, or all in time, are judged without regard to the clock. -/
theorem finding_courseFrom (pos : 1 ≤ attempt)
    (hlate : ∀ n < o.attempts.toNat, r.late (r.start started n) = late)
    (h : (r.courseFrom started left attempt (r.start started (attempt - 1))).2 = .outcome o) :
    findingFrom (r.judge late) left attempt = some (Outcome.finding o) := by
  have hattempts := le_attempts h
  have hjudge : r.assessment attempt (r.start started (attempt - 1)) = r.judge late attempt := by
    rw [assessment, hlate (attempt - 1) (by omega), judge]
  have hnext : r.ends (r.start started (attempt - 1)) = r.start started (attempt + 1 - 1) := by
    rw [Nat.add_sub_cancel, ← Nat.sub_add_cancel pos]
    rfl
  induction left generalizing attempt with
  | zero =>
    rw [courseFrom, hjudge] at h
    rw [findingFrom]
    cases heq : r.judge late attempt with
    | interrupted =>
      rw [heq] at h
      cases h
    | counted answer retryable =>
      rw [heq] at h
      dsimp only at h ⊢
      split at h <;> cases h <;> simp_all [Outcome.finding, verdict]
  | succ left ih =>
    rw [courseFrom, hjudge] at h
    rw [findingFrom]
    cases heq : r.judge late attempt with
    | interrupted =>
      rw [heq] at h
      cases h
    | counted answer retryable =>
      rw [heq] at h
      dsimp only at h ⊢
      split at h
      · next hretry =>
        rw [hnext] at h
        have hattempts' := le_attempts h
        rw [if_pos hretry]
        refine ih (Nat.le_add_left 1 attempt) h hattempts' ?_ ?_
        · rw [assessment, hlate (attempt + 1 - 1) (by omega), judge]
        · rw [Nat.add_sub_cancel, Nat.add_sub_cancel]
          rfl
      · next hretry =>
        rw [if_neg hretry]
        cases h
        rfl

/-- Exact sums leave a component its finding. -/
theorem finding_course (hdelay : 0 ≤ r.delay) (hstarted : IsInstant started)
    (hexact : ∀ n < o.attempts.toNat, r.ExactAt (r.start started n))
    (h : (r.course started).2 = .outcome o) : r.finding = some (Outcome.finding o) :=
  finding_courseFrom (le_refl 1)
    (fun n hn ↦ late_eq_outlasts (isInstant_start hdelay hstarted n) (hexact n hn)) h

/-- What a component depends on. -/
theorem finding_congr (hentries : r'.script.entries r'.component = r.script.entries r.component)
    (hdelay : r'.delay = r.delay) (hearlier : r'.earlier = r.earlier)
    (hretries : r'.policy.retries = r.policy.retries)
    (hcapture : r'.policy.captureOutput = r.policy.captureOutput)
    (htimeout : r'.policy.timeout = r.policy.timeout) : r'.finding = r.finding := by
  have hcue (attempt : Nat) : (r'.cue attempt).ending = (r.cue attempt).ending := by
    simp only [cue, Script.cue, hentries, hearlier]
  have hassess : assess r'.policy = assess r.policy := by
    funext expired outstanding ending
    simp only [assess, timedOut, hcapture, htimeout]
  have hjudge : r'.judge = r.judge := by
    funext late attempt
    rw [judge, judge, hassess, hcue]
  rw [finding, finding, hjudge, outlasts, outlasts, attemptsLeft, attemptsLeft, hretries, htimeout,
    hdelay]

end Role

/-! ## Whole runs -/

/-- The clock sums of the attempts at a component are exact, if there is a time limit. -/
def Ended.ExactFor {σ : Type} (script : Script) (policy : Policy) (e : Ended σ) (c : String) : Prop :=
  ∀ limit ∈ policy.timeout, ∀ event ∈ e.journal.events, event.2.component = c →
    event.2.phase = .started → ExactSum event.1 (script.delay c) ∧ ExactSum event.1 limit

instance {σ : Type} (script : Script) (policy : Policy) (e : Ended σ) (c : String) :
    Decidable (e.ExactFor script policy c) :=
  inferInstanceAs (Decidable (∀ limit ∈ policy.timeout, ∀ event ∈ e.journal.events, _ → _ → _))

section Execution

variable {registry registry' : Registry} {components components' : List String}
  {script script' : Script} {policy policy' : Policy} {now now' : Float}
  {shared shared' : Rehearsal.Shared} {c : String}

/-- In a run that nothing stops, a component has its finding. -/
theorem execute_finding (hlist : registry.list = .ok components)
    (hparallelism : 1 ≤ policy.parallelism) (orderly : script.Orderly) (hnow : IsInstant now)
    (hslow : policy.failFast = false)
    (hexact : (execute (script.setup policy) .never now shared components).ExactFor script policy c) :
    ∃ report : Report,
      (execute (script.setup policy) .never now shared components).report = .ok report ∧
      report.outcomes.map (·.component) = components ∧ ∀ o ∈ report.outcomes, o.component = c →
        ((Production.of script policy shared components).role c).finding =
          some (Outcome.finding o) := by
  have sound := Production.sound_of shared hlist orderly hparallelism
  have hdelays : ∀ delay ∈ Cancellation.never.delays, 0 ≤ delay := nofun
  obtain ⟨lots, hclosed, hreport⟩ := final_closed shared hlist hparallelism orderly hnow hdelays
  have hnever := final_never (Script.setup_isQuiet script policy) now shared components
  refine ⟨_, hreport, hclosed.outcomes_components sound, ?_⟩
  intro o ho hcomponent
  obtain ⟨i, hi⟩ := List.mem_iff_getElem?.1 ho
  obtain ⟨d, hc⟩ := hclosed.exists_component hi
  have hfate := hclosed.fate hc hi
  obtain rfl : c = d := hcomponent.symm.trans (hfate.component orderly)
  obtain ⟨τ, o', hlot, -⟩ := hclosed.tested hnever hslow hc
  rw [hlot] at hfate
  cases hfate with
  | interrupted hcancelled =>
    rw [hnever] at hcancelled
    cases hcancelled
  | course course past calls told traced =>
    refine Role.finding_course (orderly.delay _) (hclosed.since i τ hlot).1 (fun n hn ↦ ?_) course
    rw [course] at traced
    -- the attempt was told of when it started
    have hevent := (List.mem_filter.1 (traced n hn)).1
    have htold : (((Production.of script policy shared components).role c).start τ n,
        startedEvent c (n + 1)) ∈
        (execute (script.setup policy) .never now shared components).journal.events :=
      (events_reverse _).symm ▸ List.mem_reverse.2 hevent
    intro limit hlimit
    have hsums := hexact limit hlimit _ htold
    exact hsums rfl rfl

/-- Two runs that nothing stops say the same of a component that is arranged in the same way. -/
theorem execute_isolates (hlist : registry.list = .ok components)
    (hlist' : registry'.list = .ok components') (hparallelism : 1 ≤ policy.parallelism)
    (hparallelism' : 1 ≤ policy'.parallelism) (orderly : script.Orderly) (orderly' : script'.Orderly)
    (hnow : IsInstant now) (hnow' : IsInstant now') (hslow : policy.failFast = false)
    (hslow' : policy'.failFast = false) (hentries : script'.entries c = script.entries c)
    (hdelay : script'.delay c = script.delay c) (hearlier : shared'.count c = shared.count c)
    (hretries : policy'.retries = policy.retries)
    (hcapture : policy'.captureOutput = policy.captureOutput)
    (htimeout : policy'.timeout = policy.timeout)
    (hexact : (execute (script.setup policy) .never now shared components).ExactFor script policy c)
    (hexact' : (execute (script'.setup policy') .never now' shared' components').ExactFor
      script' policy' c) :
    ∃ report report' : Report,
      (execute (script.setup policy) .never now shared components).report = .ok report ∧
      (execute (script'.setup policy') .never now' shared' components').report = .ok report' ∧
      report.outcomes.map (·.component) = components ∧
      report'.outcomes.map (·.component) = components' ∧
      ∀ o ∈ report.outcomes, ∀ o' ∈ report'.outcomes, o.component = c → o'.component = c →
        o'.status = o.status ∧ o'.diagnostics = o.diagnostics ∧ o'.attempts = o.attempts := by
  obtain ⟨report, hreport, hcomponents, hfinding⟩ :=
    execute_finding hlist hparallelism orderly hnow hslow hexact
  obtain ⟨report', hreport', hcomponents', hfinding'⟩ :=
    execute_finding hlist' hparallelism' orderly' hnow' hslow' hexact'
  refine ⟨report, report', hreport, hreport', hcomponents, hcomponents', ?_⟩
  intro o ho o' ho' hc hc'
  have hsame : some (Outcome.finding o') = some (Outcome.finding o) := by
    rw [← hfinding o ho hc, ← hfinding' o' ho' hc']
    exact Role.finding_congr hentries hdelay hearlier hretries hcapture htimeout
  obtain ⟨hstatus, hdiagnostics, hattempts⟩ := Finding.mk.inj (Option.some_inj.1 hsame)
  exact ⟨hstatus, hdiagnostics, hattempts⟩

/-- Attempts are limited to three seconds. -/
def Policy.limited (parallelism : Int) : Policy where
  parallelism := parallelism
  timeout := some 3.0

theorem execute_isolates_failing :
    ∃ report report' : Report,
      (execute (Script.failing.setup (Policy.limited 1)) .never 0.0 {} ["alpha"]).report =
        .ok report ∧
      (execute (Script.failing.setup (Policy.limited 2)) .never 5.0 {} ["beta", "alpha"]).report =
        .ok report' ∧
      ∀ o ∈ report.outcomes, ∀ o' ∈ report'.outcomes, o.component = "alpha" →
        o'.component = "alpha" →
          o'.status = o.status ∧ o'.diagnostics = o.diagnostics ∧ o'.attempts = o.attempts :=
  have hlist : (⟨["alpha"]⟩ : Registry).list = .ok ["alpha"] := by decide +kernel
  have hlist' : (⟨["beta", "alpha"]⟩ : Registry).list = .ok ["beta", "alpha"] := by decide +kernel
  have hparallelism : 1 ≤ (Policy.limited 1).parallelism := by decide
  have hparallelism' : 1 ≤ (Policy.limited 2).parallelism := by decide
  have hnow : IsInstant 0.0 := by decide +kernel
  have hnow' : IsInstant 5.0 := by decide +kernel
  have hexact : (execute (Script.failing.setup (Policy.limited 1)) .never 0.0 {} ["alpha"]).ExactFor
      Script.failing (Policy.limited 1) "alpha" := by decide +kernel
  have hexact' : (execute (Script.failing.setup (Policy.limited 2)) .never 5.0 {}
      ["beta", "alpha"]).ExactFor Script.failing (Policy.limited 2) "alpha" := by decide +kernel
  have ⟨report, report', hreport, hreport', _, _, hsame⟩ :=
    execute_isolates hlist hlist' hparallelism hparallelism' Script.failing_orderly
      Script.failing_orderly hnow hnow' rfl rfl rfl rfl rfl rfl rfl rfl hexact hexact'
  ⟨report, report', hreport, hreport', hsame⟩

end Execution

end Run

end Testbed

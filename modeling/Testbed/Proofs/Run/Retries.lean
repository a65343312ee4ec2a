import Testbed.Proofs.Clock.Exact
import Testbed.Proofs.Run.Stream
import Testbed.Proofs.Run.Isolation

/-!
# Attempts and retries

The attempts at a component follow each other without a pause, and each has the whole time limit for
itself.  The first of them that runs out of time, or that is answered by a component which passed or
failed, is the last one, and so is the one with which the retries of the policy are used up; the report
says what that attempt came to.
-/

namespace Testbed

open Run Clock

namespace Run

/-- The instants at which attempts start that take a delay each, counted from one. -/
def attemptStart (started delay : Float) : Nat → Float
  | 0 | 1 => started
  | k + 2 => attemptStart started delay (k + 1) + delay

theorem attemptStart_succ (started delay : Float) {k : Nat} (pos : 1 ≤ k) :
    attemptStart started delay (k + 1) = attemptStart started delay k + delay := by
  obtain ⟨k, rfl⟩ := Nat.exists_eq_add_of_le' pos
  rfl

/-- All retries are left after the first attempt. -/
theorem attemptsLeft_one (policy : Policy) : attemptsLeft policy 1 = policy.retries.toNat := by
  rw [attemptsLeft, Nat.cast_one, Int.add_sub_cancel]

namespace Role

variable {r : Role} {started start : Float} {attempt left n : Nat} {o : Outcome}

/-! ## The clock of an attempt -/

theorem alarm_eq (hdelay : 0 ≤ r.delay) (hstart : IsInstant start) : r.alarm start = start + r.delay := by
  unfold alarm
  split
  · next hpositive => exact (add_eq_self hstart hdelay hpositive).symm
  · rfl

theorem late_iff (hdelay : 0 ≤ r.delay) (hstart : IsInstant start) :
    r.late start = true ↔ ∃ limit ∈ r.policy.timeout, start + limit ≤ start + r.delay := by
  rw [late, alarm_eq hdelay hstart]
  cases r.policy.timeout with
  | none => simp
  | some limit => simp

/-- Attempts that are in time take the delay of the component. -/
theorem start_eq (hdelay : 0 ≤ r.delay) (hstarted : IsInstant started) (pos : 1 ≤ n)
    (hlate : ∀ k, 1 ≤ k → k < n → r.late (r.start started (k - 1)) = false) :
    r.start started (n - 1) = attemptStart started r.delay n := by
  induction n, pos using Nat.le_induction with
  | base => rfl
  | succ n pos ih =>
    rw [attemptStart_succ _ _ pos, ← ih fun k hk hn ↦ hlate k hk (Nat.lt_succ_of_lt hn)]
    obtain ⟨m, rfl⟩ := Nat.exists_eq_add_of_le' pos
    have hin : r.late (r.start started m) = false := hlate (m + 1) pos (Nat.lt_succ_self _)
    change r.ends (r.start started m) = r.start started m + r.delay
    rw [ends, hin, if_neg Bool.false_ne_true]
    exact alarm_eq hdelay (isInstant_start hdelay hstarted m)

/-! ## The last attempt -/

/-- An attempt is the last one, whatever the retries are. -/
def Stops (r : Role) (attempt : Nat) (start : Float) : Prop :=
  r.late start = true ∨ ∃ answer, (r.cue attempt).ending = .answered answer ∧
    (answer.status = .passed ∨ answer.status = .failed)

/-- An attempt that does not stop the work is one that may be made again. -/
theorem assessment_stops (orderly : r.script.Orderly) (attempt : Nat) (start : Float) :
    ∃ answer retryable, r.assessment attempt start = .counted answer retryable ∧
      (answer.status = .errored ∧ retryable = true ↔ ¬ r.Stops attempt start) := by
  unfold assessment Stops
  cases r.late start with
  | true => exact ⟨_, _, rfl, by simp⟩
  | false =>
    obtain ⟨answer, hanswer, hstatus⟩ | ⟨failure, hfailure⟩ :=
      Script.Orderly.cue_ending orderly r.component (r.earlier + (attempt - 1))
    · refine ⟨if r.policy.captureOutput then answer else { status := answer.status }, true, ?_, ?_⟩
      · simp [Role.cue, hanswer, assess]
      · have hsame : (if r.policy.captureOutput then answer else { status := answer.status }).status =
            answer.status := by split <;> rfl
        rw [hsame]
        simp only [List.mem_cons, List.not_mem_nil, or_false] at hstatus
        obtain h | h | h := hstatus <;> simp [Role.cue, hanswer, h]
    · exact ⟨{ status := .errored, diagnostics := some failure.text }, true,
        by simp [Role.cue, hfailure, assess], by simp [Role.cue, hfailure]⟩

/-- The attempt with which the work on a component ends. -/
structure Last (r : Role) (started : Float) (attempt left n : Nat) (o : Outcome) : Prop where
  from_le : attempt ≤ n
  le : n ≤ attempt + left
  earlier : ∀ k, attempt ≤ k → k < n → ¬ r.Stops k (r.start started (k - 1))
  stops : r.Stops n (r.start started (n - 1)) ∨ n = attempt + left
  attempts : o.attempts = n
  answer : ∃ retryable, r.assessment n (r.start started (n - 1)) =
    .counted { status := o.status, diagnostics := o.diagnostics } retryable

/-- The attempt underway is the last one. -/
theorem Last.here {answer : Answer} {retryable : Bool} (now : Float)
    (hassess : r.assessment n (r.start started (n - 1)) = .counted answer retryable)
    (hstops : r.Stops n (r.start started (n - 1)) ∨ left = 0) :
    Last r started n left n (r.verdict started n now answer) where
  from_le := le_rfl
  le := Nat.le_add_right _ _
  earlier k hk hlt := absurd hlt (Nat.not_lt.2 hk)
  stops := hstops.imp_right fun h ↦ by rw [h, Nat.add_zero]
  attempts := rfl
  answer := ⟨retryable, hassess⟩

/-- Another attempt follows. -/
theorem Last.later (hgoes : ¬ r.Stops attempt (r.start started (attempt - 1)))
    (h : Last r started (attempt + 1) left n o) : Last r started attempt (left + 1) n o where
  from_le := Nat.le_of_succ_le h.from_le
  le := h.le.trans_eq (by omega)
  earlier k hk hlt := by
    obtain rfl | hk := hk.eq_or_lt
    · exact hgoes
    · exact h.earlier k hk hlt
  stops := h.stops.imp_right fun h ↦ by omega
  attempts := h.attempts
  answer := h.answer

/-- The work goes on until an attempt stops it or the retries are used up: by induction on the attempts
that are left. -/
theorem courseFrom_last (orderly : r.script.Orderly) (pos : 1 ≤ attempt)
    (h : (r.courseFrom started left attempt (r.start started (attempt - 1))).2 = .outcome o) :
    ∃ n, Last r started attempt left n o := by
  induction left generalizing attempt with
  | zero =>
    obtain ⟨answer, retryable, hassess, -⟩ :=
      assessment_stops orderly attempt (r.start started (attempt - 1))
    rw [courseFrom, hassess] at h
    dsimp only at h
    split at h <;> cases h <;> exact ⟨attempt, .here _ hassess (.inr rfl)⟩
  | succ left ih =>
    obtain ⟨answer, retryable, hassess, hagain⟩ :=
      assessment_stops orderly attempt (r.start started (attempt - 1))
    rw [courseFrom, hassess] at h
    dsimp only at h
    split at h
    · next hretry =>
      have hnext : r.ends (r.start started (attempt - 1)) = r.start started (attempt + 1 - 1) := by
        rw [Nat.add_sub_cancel, ← Nat.sub_add_cancel pos]
        rfl
      rw [hnext] at h
      obtain ⟨n, hn⟩ := ih (Nat.le_add_left 1 attempt) h
      exact ⟨n, hn.later (hagain.1 hretry)⟩
    · next hretry =>
      cases h
      exact ⟨attempt, .here _ hassess (.inl (by_contra fun hgoes ↦ hretry (hagain.2 hgoes)))⟩

theorem course_last (orderly : r.script.Orderly) (h : (r.course started).2 = .outcome o) :
    ∃ n, Last r started 1 r.policy.retries.toNat n o := by
  obtain ⟨n, hn⟩ := courseFrom_last orderly le_rfl h
  rw [attemptsLeft_one] at hn
  exact ⟨n, hn⟩

/-! ## The law of retries -/

/-- An attempt that starts at an instant runs out of time. -/
def RunsOut (r : Role) (start : Float) : Prop :=
  ∃ limit ∈ r.policy.timeout, start + limit ≤ start + r.delay

section Last

variable (hdelay : 0 ≤ r.delay) (hstarted : IsInstant started)
include hdelay hstarted

theorem Last.start_eq (h : Last r started 1 left n o) {k : Nat} (pos : 1 ≤ k) (hk : k ≤ n) :
    r.start started (k - 1) = attemptStart started r.delay k := by
  refine Role.start_eq hdelay hstarted pos fun j hj hjk ↦ ?_
  by_contra hlate
  exact h.earlier j hj (hjk.trans_le hk) (.inl (by simpa using hlate))

theorem Last.runsOut_iff (h : Last r started 1 left n o) {k : Nat} (pos : 1 ≤ k) (hk : k ≤ n) :
    r.RunsOut (attemptStart started r.delay k) ↔ r.late (r.start started (k - 1)) = true := by
  rw [late_iff hdelay (isInstant_start hdelay hstarted _), h.start_eq hdelay hstarted pos hk]
  rfl

theorem Last.isLeast (h : Last r started 1 left n o) :
    IsLeast {k | 1 ≤ k ∧ (r.RunsOut (attemptStart started r.delay k) ∨
      (∃ answer, (r.cue k).ending = .answered answer ∧
        (answer.status = .passed ∨ answer.status = .failed)) ∨ k = left + 1)} n := by
  constructor
  · refine ⟨h.from_le, ?_⟩
    rw [h.runsOut_iff hdelay hstarted h.from_le le_rfl, ← or_assoc]
    exact h.stops.imp_right fun hn ↦ hn.trans (Nat.add_comm 1 left)
  · rintro k ⟨pos, hk⟩
    by_contra hlt
    have hlt : k < n := Nat.lt_of_not_le hlt
    rw [h.runsOut_iff hdelay hstarted pos hlt.le, ← or_assoc] at hk
    obtain hstops | hlast := hk
    · exact h.earlier k pos hlt hstops
    · have := h.le
      omega

/-- An attempt that runs out of time says so. -/
theorem Last.timedOut (h : Last r started 1 left n o) {limit : Float} (hlimit : limit ∈ r.policy.timeout)
    (hout : r.RunsOut (attemptStart started r.delay n)) : o.status = .errored ∧
      o.diagnostics = some ("Timed out after " ++ Decimal.generalText limit ++ "s") := by
  obtain ⟨retryable, hassess⟩ := h.answer
  rw [assessment, (h.runsOut_iff hdelay hstarted h.from_le le_rfl).1 hout] at hassess
  have hanswer : Run.timedOut r.policy = { status := o.status, diagnostics := o.diagnostics } :=
    (Assessment.counted.inj hassess).1
  rw [Run.timedOut, Option.mem_def.1 hlimit, Option.getD_some, Answer.mk.injEq] at hanswer
  exact ⟨hanswer.1.symm, hanswer.2.symm⟩

/-- An attempt in time says what the runner said. -/
theorem Last.inTime (h : Last r started 1 left n o)
    (hin : ¬ r.RunsOut (attemptStart started r.delay n)) :
    (∀ failure, (r.cue n).ending = .raised failure →
      o.status = .errored ∧ o.diagnostics = some failure.text) ∧
    ∀ answer, (r.cue n).ending = .answered answer → o.status = answer.status ∧
      o.diagnostics = if r.policy.captureOutput then answer.diagnostics else none := by
  obtain ⟨retryable, hassess⟩ := h.answer
  rw [h.runsOut_iff hdelay hstarted h.from_le le_rfl, Bool.not_eq_true] at hin
  rw [assessment, hin] at hassess
  refine ⟨fun failure hfailure ↦ ?_, fun answer hanswer ↦ ?_⟩
  · rw [if_neg Bool.false_ne_true, hfailure] at hassess
    have hsame := Answer.mk.inj (Assessment.counted.inj hassess).1
    exact ⟨hsame.1.symm, hsame.2.symm⟩
  · rw [if_neg Bool.false_ne_true, hanswer, assess] at hassess
    have hsame := (Assessment.counted.inj hassess).1
    split at hsame
    · next hcapture =>
      rw [if_pos hcapture, hsame]
      exact ⟨rfl, rfl⟩
    · next hcapture =>
      rw [if_neg hcapture]
      exact ⟨(congrArg Answer.status hsame).symm, (congrArg Answer.diagnostics hsame).symm⟩

end Last

end Role

/-! ## Whole runs -/

/-- An event of a run, as it stands in the journal that the run leaves. -/
theorem mem_ended_events {s : ScriptState} {i : Nat} {c : String} {e : Float × Event}
    (h : e ∈ (s.view i c).events) : e ∈ s.ended.journal.events := by
  have hjournal : e ∈ Journal.events s.journal := (List.mem_filter.1 h).1
  exact (events_reverse _).symm ▸ List.mem_reverse.2 hjournal

section Execution

variable {registry : Registry} {components : List String} {script : Script} {policy : Policy}
  {cancellation : Cancellation} {now : Float}

/-- The attempts at a component that was tested to the end: the first one that runs out of time, is
answered by a component which passed or failed, or uses up the retries is the last one, and it alone
decides what the report says. -/
theorem execute_last_attempt (shared : Rehearsal.Shared) (hlist : registry.list = .ok components)
    (hparallelism : 1 ≤ policy.parallelism) (orderly : script.Orderly) (hnow : IsInstant now)
    (hdelays : ∀ delay ∈ cancellation.delays, 0 ≤ delay) :
    let ended := execute (script.setup policy) cancellation now shared components
    ∃ report : Report, ended.report = .ok report ∧
      report.outcomes.map (·.component) = components ∧
      ∀ o ∈ report.outcomes, o.status ≠ .skipped →
        let c := o.component
        let delay := script.delay c
        let entry (k : Nat) := (script.cue c (shared.count c + (k - 1))).ending
        ∃ (t : Nat → Float) (n : Nat),
          ended.starts c = [t 1] ∧ (∀ k, 1 ≤ k → t (k + 1) = t k + delay) ∧
          IsLeast {k | 1 ≤ k ∧ ((∃ limit ∈ policy.timeout, t k + limit ≤ t k + delay) ∨
            (∃ answer, entry k = .answered answer ∧
              (answer.status = .passed ∨ answer.status = .failed)) ∨
            k = policy.retries.toNat + 1)} n ∧
          ended.shared.count c = shared.count c + n ∧ o.attempts = n ∧
          (∀ k, 1 ≤ k → k ≤ n → (t k, startedEvent c k) ∈ ended.journal.events) ∧
          (∀ limit ∈ policy.timeout, t n + limit ≤ t n + delay → o.status = .errored ∧
            o.diagnostics = some ("Timed out after " ++ Decimal.generalText limit ++ "s")) ∧
          ((¬ ∃ limit ∈ policy.timeout, t n + limit ≤ t n + delay) →
            (∀ failure, entry n = .raised failure →
              o.status = .errored ∧ o.diagnostics = some failure.text) ∧
            ∀ answer, entry n = .answered answer → o.status = answer.status ∧
              o.diagnostics = if policy.captureOutput then answer.diagnostics else none) := by
  have sound := Production.sound_of shared hlist orderly hparallelism
  obtain ⟨lots, hplay⟩ := begin_play sound (fun _ ↦ rfl) hnow hdelays
  obtain ⟨lots, hclosed, hreport⟩ := final_closed shared hlist hparallelism orderly hnow hdelays
  have hrecorded : Recorded (.of script policy shared components)
      (final (script.setup policy) cancellation now shared components) :=
    (Recorded.begin sound (fun _ ↦ rfl) cancellation now).steps sound
      (.begin (Script.setup_isQuiet _ _) _ _ _ _) hplay _
  refine ⟨_, hreport, hclosed.outcomes_components sound, fun o ho hne ↦ ?_⟩
  obtain ⟨i, hi⟩ := List.mem_iff_getElem?.1 ho
  obtain ⟨c, hc⟩ := hclosed.exists_component hi
  obtain ⟨hcomponent, m, last, -, -, -, htested, -⟩ :=
    (hrecorded i c hc).agrees (hclosed.outcomes_getElem?.1 hi)
  obtain ⟨hattempts, hcalls, -, -⟩ := htested hne
  rw [show o.component = c from hcomponent]
  have hfate := hclosed.fate hc hi
  generalize hlot : lots i = lot at hfate
  cases hfate with
  | untouched => exact absurd rfl hne
  | interrupted => exact absurd rfl hne
  | @course τ _ course past calls told traced =>
    have hdelay : 0 ≤ ((Production.of script policy shared components).role c).delay := orderly.delay c
    have hstarted := (hclosed.since i τ hlot).1
    obtain ⟨n, hlast⟩ := Role.course_last orderly course
    obtain rfl : m = n := Int.ofNat_inj.1 (hattempts.symm.trans hlast.attempts)
    refine ⟨attemptStart τ (script.delay c), m, ?_, fun k ↦ attemptStart_succ _ _, ?_, hcalls, hattempts,
      fun k pos hk ↦ ?_, fun limit hlimit hout ↦ ?_, hlast.inTime hdelay hstarted⟩
    · exact (ended_starts _ i c).trans (congrArg List.reverse (Prod.ext_iff.1 told).1)
    · exact hlast.isLeast hdelay hstarted
    · have hevent := traced (k - 1) (by rw [course, Finish.attempts]; omega)
      rw [hlast.start_eq hdelay hstarted pos hk, Nat.sub_add_cancel pos] at hevent
      exact mem_ended_events hevent
    · exact hlast.timedOut hdelay hstarted hlimit ⟨limit, hlimit, hout⟩

/-- A first component that cannot be tested at once and fails in the end, a second one that passes, and
a third one that takes longer. -/
def Script.faltering : Script where
  entries component :=
    if component = "alpha" then
      [.raised { kind := "RuntimeError", text := "broken" }, .answered { status := .failed }]
    else []
  delay component := if component = "gamma" then 2.0 else 1.0

theorem Script.faltering_orderly : Script.faltering.Orderly where
  delay component := by
    simp only [Script.faltering]
    split <;> decide +kernel
  answered component ending h := by
    simp only [Script.faltering] at h
    split at h
    · simp only [List.mem_cons, List.not_mem_nil, or_false] at h
      obtain rfl | rfl := h
      · exact .inr ⟨_, rfl⟩
      · exact .inl ⟨_, rfl, by simp⟩
    · cases h

/-- What is left of a run with up to three attempts at each component, limited to a time that is too short
for the last one. -/
def falteringEnd : Ended Rehearsal.Shared :=
  execute (Script.faltering.setup { retries := 2, timeout := some 1.5 }) .never 0.0 {}
    ["alpha", "beta", "gamma"]

/-- The first component has two attempts, because the first of them was not answered.  The others have
one each, which passes or runs out of time. -/
theorem execute_last_attempt_faltering :
    (⟨["alpha", "beta", "gamma"]⟩ : Registry).list = .ok ["alpha", "beta", "gamma"] ∧
      ∃ report : Report, falteringEnd.report = .ok report ∧
        report.outcomes.map (fun o ↦ (o.component, o.status, o.attempts)) =
          [("alpha", .failed, 2), ("beta", .passed, 1), ("gamma", .errored, 1)] ∧
        ∀ o ∈ report.outcomes, ∃ (t : Nat → Float) (n : Nat),
          o.attempts = n ∧ falteringEnd.shared.count o.component = n ∧
          falteringEnd.starts o.component = [t 1] ∧
          ∀ k, 1 ≤ k → k ≤ n → (t k, startedEvent o.component k) ∈ falteringEnd.journal.events := by
  have hlist : (⟨["alpha", "beta", "gamma"]⟩ : Registry).list = .ok ["alpha", "beta", "gamma"] := by
    decide +kernel
  have hparallelism : 1 ≤ ({ retries := 2, timeout := some 1.5 } : Policy).parallelism := by decide
  have hnow : IsInstant 0.0 := by decide +kernel
  have hdelays : ∀ delay ∈ Cancellation.never.delays, (0 : Float) ≤ delay := by simp [Cancellation.delays]
  obtain ⟨report, hreport, -, hlast⟩ :=
    execute_last_attempt {} hlist hparallelism Script.faltering_orderly hnow hdelays
  have houtcomes : report.outcomes.map (fun o ↦ (o.component, o.status, o.attempts)) =
      [("alpha", .failed, 2), ("beta", .passed, 1), ("gamma", .errored, 1)] := by
    have hrun : falteringEnd.report.toOption.map
        (·.outcomes.map fun o ↦ (o.component, o.status, o.attempts)) =
          some [("alpha", .failed, 2), ("beta", .passed, 1), ("gamma", .errored, 1)] := by decide +kernel
    rw [show falteringEnd.report = .ok report from hreport] at hrun
    exact Option.some_inj.1 hrun
  refine ⟨hlist, report, hreport, houtcomes, fun o ho ↦ ?_⟩
  have htested : o.status ≠ .skipped := by
    intro hskipped
    have hmem := List.mem_map_of_mem (f := fun o : Outcome ↦ (o.component, o.status, o.attempts)) ho
    rw [houtcomes, hskipped] at hmem
    simp at hmem
  obtain ⟨t, n, hstarts, -, -, hcount, hattempts, hevents, -⟩ := hlast o ho htested
  exact ⟨t, n, hattempts, hcount.trans (Nat.zero_add n), hstarts, hevents⟩

end Execution

end Run

end Testbed

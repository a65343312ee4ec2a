import Testbed.Proofs.Run.Pace

/-!
# Components on their course

A component that was started is on its course: what the rest of its work comes to, as far as it can
be foretold from its view, is what its course said at the start.  Every turn about its place and every
move of the clock keep it there, whatever else happens in the run.
-/

namespace Testbed.Run

open Clock

/-! ## Answers -/

theorem Script.Orderly.cue_ending {script : Script} (h : script.Orderly) (c : String) (n : Nat) :
    (∃ answer, (script.cue c n).ending = .answered answer ∧
      answer.status ∈ [.passed, .failed, .errored]) ∨
        ∃ failure, (script.cue c n).ending = .raised failure := by
  unfold Script.cue
  cases hentry : Script.entry? (script.entries c) n with
  | none => exact .inl ⟨_, rfl, by simp⟩
  | some ending => exact h.answered c ending (List.mem_of_getElem? hentry)

theorem Role.assessment_eq (r : Role) (h : r.script.Orderly) (attempt : Nat) (start : Float) :
    ∃ answer retryable, r.assessment attempt start = .counted answer retryable ∧
      answer.status ∈ [.passed, .failed, .errored] := by
  unfold Role.assessment
  cases r.late start with
  | true => exact ⟨_, _, rfl, by simp [timedOut]⟩
  | false =>
    obtain ⟨answer, hanswer, hstatus⟩ | ⟨failure, hfailure⟩ :=
      Script.Orderly.cue_ending h r.component (r.earlier + (attempt - 1))
    · refine ⟨if r.policy.captureOutput then answer else { status := answer.status }, true, ?_, ?_⟩
      · simp [Role.cue, hanswer, assess]
      · split <;> exact hstatus
    · exact ⟨{ status := .errored, diagnostics := some failure.text }, true,
        by simp [Role.cue, hfailure, assess], by simp⟩

/-- The work on a component ends in an outcome, which was not skipped. -/
theorem Role.courseFrom_outcome (r : Role) (h : r.script.Orderly) (started : Float)
    (left attempt : Nat) (start : Float) :
    ∃ o, (r.courseFrom started left attempt start).2 = .outcome o ∧ o.component = r.component ∧
      o.status ∈ [.passed, .failed, .errored] := by
  induction left generalizing attempt start with
  | zero =>
    obtain ⟨answer, retryable, heq, hstatus⟩ := r.assessment_eq h attempt start
    rw [courseFrom, heq]
    dsimp only
    split <;> exact ⟨_, rfl, rfl, hstatus⟩
  | succ left ih =>
    obtain ⟨answer, retryable, heq, hstatus⟩ := r.assessment_eq h attempt start
    rw [courseFrom, heq]
    dsimp only
    split
    · exact ih _ _
    · exact ⟨_, rfl, rfl, hstatus⟩

/-! ## Views on course -/

/-- The instants at which the work on a component finished, skips aside. -/
def View.finishes (v : View) : List Float :=
  v.events.filterMap fun (now, e) ↦
    if e.phase = .finished ∧ e.status ≠ some .skipped then some now else none

/-- The instants at which the first attempt at a component was started. -/
def View.starts (v : View) : List Float :=
  v.events.filterMap fun (now, e) ↦ if e.phase = .started ∧ e.attempt = 1 then some now else none

/-- When the work on the component started, and when it finished. -/
def View.told (v : View) : List Float × List Float :=
  (v.starts, v.finishes)

/-- The starts of the first attempts are told of. -/
def View.Traced (r : Role) (started : Float) (attempts : Nat) (v : View) : Prop :=
  ∀ n < attempts, (r.start started n, startedEvent r.component (n + 1)) ∈ v.events

theorem View.Traced.mono {r : Role} {started : Float} {attempts : Nat} {v v' : View}
    (h : v.Traced r started attempts) (hevents : v.events ⊆ v'.events) :
    v'.Traced r started attempts :=
  fun n hn ↦ hevents (h n hn)

/-- No turn and no timer is about the place. -/
def View.Idle (v : View) : Prop :=
  v.queue = [] ∧ v.next = [] ∧ v.timers = []

/-- The component was never started. -/
structure Untouched (r : Role) (v : View) : Prop where
  idle : v.Idle
  calls : v.calls = r.earlier
  events : ∀ e ∈ v.events, ∃ c, e.2 = skipEvent c

theorem View.told_append (v : View) {skips : List (Float × Event)}
    (h : ∀ e ∈ skips, ∃ c, e.2 = skipEvent c) (slot : Option (Slot Rehearsal.Invocation))
    (next : List Turn) :
    { v with slot := slot, next := next, events := skips ++ v.events }.told = v.told := by
  have hnone {f : Float × Event → Option Float} (hf : ∀ now c, f (now, skipEvent c) = none) :
      (skips ++ v.events).filterMap f = v.events.filterMap f := by
    rw [List.filterMap_append, List.filterMap_eq_nil_iff.2, List.nil_append]
    rintro ⟨now, e⟩ he
    obtain ⟨c, rfl⟩ := h _ he
    exact hf now c
  refine Prod.ext (hnone fun now c ↦ ?_) (hnone fun now c ↦ ?_) <;> simp [skipEvent]

theorem Untouched.told {r : Role} {v : View} (h : Untouched r v) : v.told = ([], []) := by
  refine Prod.ext ?_ ?_ <;> refine List.filterMap_eq_nil_iff.2 ?_ <;> rintro ⟨now, e⟩ he <;>
    obtain ⟨c, rfl⟩ := h.events _ he <;> simp [skipEvent]

/-- The component was started at an instant and is on its course. -/
inductive OnCourse (r : Role) (i : Nat) (started : Float) (v : View) : Prop
  | fresh (slot : v.slot = some (.running { started := started })) (now : v.now = started)
    (turn : v.queue ++ v.next = [.work i]) (timers : v.timers = []) (calls : v.calls = r.earlier)
    (told : v.told = ([], []))
  | underway (attempt : Nat) (start : Float) (w : Worker Rehearsal.Invocation)
    (slot : v.slot = some (.running w)) (pos : 1 ≤ attempt) (instant : IsInstant start)
    (course : r.courseFrom started (attemptsLeft r.policy attempt) attempt start = r.course started)
    (pace : Pace r i attempt started start v.now w v.queue v.next v.timers)
    (calls : v.calls = r.earlier + attempt) (told : v.told = ([started], []))
    (origin : start = r.start started (attempt - 1)) (traced : v.Traced r started attempt)
  | finished (w : Worker Rehearsal.Invocation)
    (slot : v.slot = some (.running { w with stage := .finished (r.course started).2 }))
    (idle : v.Idle) (past : tick (r.course started).1 ≤ tick v.now) (calls : r.earlier < v.calls)
    (told : v.told = ([started], [(r.course started).1]))
    (traced : v.Traced r started (r.course started).2.attempts)
  | settled (o : Outcome) (slot : v.slot = some (.settled o))
    (outcome : (r.course started).2 = .outcome o) (idle : v.Idle)
    (past : tick (r.course started).1 ≤ tick v.now) (calls : r.earlier < v.calls)
    (told : v.told = ([started], [(r.course started).1]))
    (traced : v.Traced r started (r.course started).2.attempts)

namespace OnCourse

variable {r : Role} {i : Nat} {started : Float} {v : View}

/-- An attempt begins. -/
theorem begun {w : Worker Rehearsal.Invocation} (hdelay : 0 ≤ r.delay) (hnow : IsInstant v.now)
    (pos : 1 ≤ w.attempt) (hcalls : v.calls = r.earlier + (w.attempt - 1))
    (houtstanding : w.outstanding = 0) (hexpired : w.expired = false) (hstarted : w.started = started)
    (idle : v.Idle) (htold : v.told = (if w.attempt = 1 then [] else [started], []))
    (horigin : v.now = r.start started (w.attempt - 1)) (htraced : v.Traced r started (w.attempt - 1))
    (hcourse : r.courseFrom started (attemptsLeft r.policy w.attempt) w.attempt v.now =
      r.course started) :
    OnCourse r i started (v.begun r.policy r.script i r.component w) := by
  obtain ⟨w', hslot, hpace⟩ :=
    Pace.begun (i := i) hdelay hnow hcalls houtstanding hexpired idle.1 idle.2.1 idle.2.2
  rw [hstarted] at hpace
  refine .underway w.attempt v.now w' hslot pos hnow hcourse hpace ?_ ?_ horigin fun n hn ↦ ?_
  · change v.calls + 1 = _
    omega
  · obtain ⟨hstarts, hfinishes⟩ := Prod.ext_iff.1 htold
    refine Prod.ext ?_ hfinishes
    have hevents : (v.begun r.policy r.script i r.component w).events =
        (v.now, startedEvent r.component w.attempt) :: v.events := rfl
    change View.starts _ = [started]
    rw [View.starts, hevents]
    by_cases hone : w.attempt = 1
    · have hfirst : v.now = started := by rw [horigin, hone]; rfl
      rw [List.filterMap_cons_some (b := v.now) (by simp [startedEvent, hone]), hfirst]
      exact congrArg _ (hstarts.trans (if_pos hone))
    · rw [List.filterMap_cons_none (by simp [startedEvent, hone])]
      exact hstarts.trans (if_neg hone)
  · obtain hlt | rfl : n < w.attempt - 1 ∨ n = w.attempt - 1 := by omega
    · exact List.mem_cons_of_mem _ (htraced n hlt)
    · rw [← horigin, Nat.sub_add_cancel pos]
      exact List.mem_cons_self

/-- The work ends with the answer that the course foretold. -/
theorem concluded {w : Worker Rehearsal.Invocation} {attempt : Nat} {answer : Answer}
    (pos : 1 ≤ attempt) (hstarted : w.started = started) (hattempt : w.attempt = attempt)
    (hstatus : answer.status ≠ .skipped) (idle : v.Idle) (hcalls : v.calls = r.earlier + attempt)
    (htold : v.told = ([started], [])) (htraced : v.Traced r started attempt)
    (hcourse : (v.now, Finish.outcome (r.verdict started attempt v.now answer)) = r.course started) :
    OnCourse r i started (v.concluded r.component w answer) := by
  obtain ⟨hstarts, hfinishes⟩ := Prod.ext_iff.1 htold
  refine .finished w ?_ idle ?_ ?_ (Prod.ext hstarts ?_) ?_
  · rw [← hcourse]
    simp only [View.concluded, Role.verdict, hstarted, hattempt]
  · rw [← hcourse]
    exact le_rfl
  · change r.earlier < v.calls
    omega
  · have hevents : (v.concluded r.component w answer).events =
        (v.now, finishedEvent r.component w v.now answer.status) :: v.events := rfl
    change View.finishes _ = [(r.course started).1]
    rw [View.finishes, hevents]
    rw [List.filterMap_cons_some (b := v.now) (by simp [finishedEvent, hstatus]), ← hcourse]
    exact congrArg _ hfinishes
  · rw [← hcourse]
    exact htraced.mono (List.subset_cons_self _ _)

/-- An attempt ends, and the next one begins or the work ends. -/
theorem ended {w : Worker Rehearsal.Invocation} {attempt : Nat} {start : Float} {ending : Ending}
    (orderly : r.script.Orderly) (hnow : IsInstant v.now) (hends : v.now = r.ends start)
    (pos : 1 ≤ attempt) (hstarted : w.started = started) (hattempt : w.attempt = attempt)
    (houtstanding : w.released.outstanding = 0)
    (hassess : assess r.policy w.released.expired w.released.outstanding ending =
      r.assessment attempt start)
    (hcourse : r.courseFrom started (attemptsLeft r.policy attempt) attempt start = r.course started)
    (idle : v.Idle) (hcalls : v.calls = r.earlier + attempt) (htold : v.told = ([started], []))
    (horigin : start = r.start started (attempt - 1)) (htraced : v.Traced r started attempt) :
    OnCourse r i started (v.ended r.policy r.script i r.component (attemptsLeft r.policy attempt) w
      ending) := by
  obtain ⟨answer, retryable, heq, hstatus⟩ := r.assessment_eq orderly attempt start
  have hreleased : w.released.started = started ∧ w.released.attempt = attempt := ⟨hstarted, hattempt⟩
  have hne : answer.status ≠ .skipped := by
    rintro h
    simp [h] at hstatus
  have hconcluded := concluded (v := v) (i := i) pos hreleased.1 hreleased.2 hne idle hcalls htold htraced
  rw [View.ended]
  simp only [hassess, heq]
  rw [Role.courseFrom, heq] at hcourse
  dsimp only at hcourse
  split
  · next hretry =>
    rw [if_pos hretry] at hcourse
    cases hleft : attemptsLeft r.policy attempt with
    | zero =>
      rw [hleft, ← hends] at hcourse
      exact hconcluded hcourse
    | succ left =>
      rw [hleft, ← hends] at hcourse
      refine begun (orderly.delay _) hnow ?_ ?_ houtstanding rfl hstarted idle ?_ ?_ ?_ ?_
      · exact Nat.le_add_left 1 _
      · change v.calls = r.earlier + w.released.attempt
        rw [hreleased.2, hcalls]
      · rw [htold, if_neg]
        change ¬ w.released.attempt + 1 = 1
        omega
      · change v.now = r.start started w.released.attempt
        rw [hends, horigin, hreleased.2, ← Nat.sub_add_cancel pos]
        rfl
      · change v.Traced r started w.released.attempt
        rwa [hreleased.2]
      · change r.courseFrom started (attemptsLeft r.policy (w.released.attempt + 1))
          (w.released.attempt + 1) v.now = _
        rw [hreleased.2, Role.attemptsLeft_succ hleft]
        exact hcourse
  · next hretry =>
    rw [if_neg hretry, ← hends] at hcourse
    exact hconcluded hcourse

/-- A turn about the place is taken. -/
theorem handle {s : ScriptState} {t : Turn} {queue : List Turn} (orderly : r.script.Orderly)
    (hnow : IsInstant s.now) (ht : t.place? = some i)
    (hcomponent : s.places[i]?.map (·.component) = some r.component)
    (hqueue : (s.view i r.component).queue = queue)
    (h : OnCourse r i started { s.view i r.component with queue := t :: queue }) :
    OnCourse r i started ((handle (r.script.setup r.policy) t s).view i r.component) := by
  cases h with
  | fresh slot now turn timers calls told =>
    obtain ⟨rfl, hrest⟩ : t = .work i ∧ queue ++ (s.view i r.component).next = [] := by
      simpa using turn
    obtain ⟨rfl, hnext⟩ := List.append_eq_nil_iff.1 hrest
    have hslot : s.slot? i = some (.running { started := started }) := slot
    have hview := view_work_fresh r.script r.policy (State.place_of_slot? hcomponent hslot) rfl
    rw [Run.handle, hview]
    refine begun (orderly.delay _) hnow le_rfl calls rfl rfl rfl ⟨hqueue, hnext, timers⟩
      told now (fun n hn ↦ absurd hn n.not_lt_zero) ?_
    rw [show (s.view i r.component).now = started from now]
    rfl
  | underway attempt start w slot pos instant course pace calls told origin traced =>
    have hslot : s.slot? i = some (.running w) := slot
    cases t with
    | work j =>
      obtain rfl : j = i := by simpa using ht
      obtain ⟨rfl, hnext, htimers, hends, hstarted, hattempt, houtstanding, awaits, rung, interrupted,
        hstage, hassess⟩ := pace.work
      have hview := view_work_suspended r.script r.policy (State.place_of_slot? hcomponent hslot) hstage
        (Role.cue_aftermath r attempt)
      rw [Run.handle, hview, hattempt]
      exact ended orderly hnow hends pos hstarted hattempt houtstanding hassess course
        ⟨hqueue, hnext, htimers⟩ calls told origin traced
    | expire j n =>
      obtain rfl : j = i := by simpa using ht
      obtain ⟨invocation, awaits, signals, hstage, hattempt, hexpired, hpace⟩ := pace.expire
      have hview := view_expire (c := r.component) n hslot hstage
      rw [if_pos ⟨hattempt, hexpired⟩] at hview
      rw [Run.handle, hview]
      refine .underway attempt start _ rfl pos instant course ?_ calls told origin traced
      rw [← hqueue] at hpace
      exact hpace
    | ring j n alarm =>
      obtain rfl : j = i := by simpa using ht
      obtain ⟨invocation, awaits, signals, hstage, hheard, hunheard⟩ := pace.ring
      have hview := view_ring (c := r.component) n alarm hslot hstage
      rw [Run.handle, hview]
      split
      · next hcond =>
        have hpace := hheard hcond
        rw [← hqueue] at hpace
        exact .underway attempt start _ rfl pos instant course hpace calls told origin traced
      · next hcond =>
        have hpace := hunheard hcond
        rw [← hqueue] at hpace
        exact .underway attempt start w slot pos instant course hpace calls told origin traced
    | cancel | watch | notice | coordinate => cases ht
  | finished w slot idle => cases idle.1
  | settled o slot outcome idle => cases idle.1

theorem advance {now : Float} (orderly : r.script.Orderly) (hqueue : v.queue = [])
    (ht : Ticks v.timers v.next v.now now) (h : OnCourse r i started v) :
    OnCourse r i started (v.advanced now) := by
  cases h with
  | fresh slot hnow turn timers calls told =>
    rw [hqueue] at turn
    obtain rfl : now = v.now := ht.next (by simp_all)
    refine .fresh slot hnow ?_ ?_ calls told
    · simpa [View.advanced, timers] using turn
    · simp [View.advanced, timers]
  | underway attempt start w slot pos instant course pace calls told origin traced =>
    rw [hqueue] at pace
    exact .underway attempt start w slot pos instant course
      (pace.advance (orderly.delay _) instant ht) calls told origin traced
  | finished w slot idle past calls told traced =>
    refine .finished w slot ⟨?_, rfl, ?_⟩ (past.trans ht.le) calls told traced
    · simp [View.advanced, idle.2.1, idle.2.2]
    · simp [View.advanced, idle.2.2]
  | settled o slot outcome idle past calls told traced =>
    refine .settled o slot outcome ⟨?_, rfl, ?_⟩ (past.trans ht.le) calls told traced
    · simp [View.advanced, idle.2.1, idle.2.2]
    · simp [View.advanced, idle.2.2]

/-- Work whose end is past has ended. -/
theorem told_of_past (orderly : r.script.Orderly) (hnow : IsInstant v.now)
    (hpast : tick (r.course started).1 < tick v.now) (h : OnCourse r i started v) :
    v.told = ([started], [(r.course started).1]) := by
  cases h with
  | fresh slot now =>
    rw [now] at hnow hpast
    have := (Role.isInstant_course (orderly.delay _) hnow).2
    omega
  | underway attempt start w slot pos instant course pace =>
    have hends := pace.le_ends (orderly.delay _) instant hnow
    have hle := Role.ends_le_courseFrom (orderly.delay r.component) started
      (attemptsLeft r.policy attempt) attempt instant
    rw [course] at hle
    omega
  | finished w slot idle past calls told => exact told
  | settled o slot outcome idle past calls told => exact told

end OnCourse

/-! ## Interrupted work -/

/-- The work on the component was interrupted, and ends as soon as it has its turn. -/
inductive Leaving (r : Role) (i : Nat) (v : View) : Prop
  | waits (w : Worker Rehearsal.Invocation) (cue : Cue) (awaits rung : List Nat)
    (slot : v.slot = some (.running w))
    (stage : w.stage = .suspended (.waiting cue) awaits { queued := true, rung, interrupted := true })
    (aftermath : cue.aftermath = none)
    (outstanding : (if w.expired then 2 else 1) ≤ w.outstanding) (turn : .work i ∈ v.queue ++ v.next)
    (calls : r.earlier < v.calls) (finishes : v.finishes = [])
  | left (w : Worker Rehearsal.Invocation)
    (slot : v.slot = some (.running { w with stage := .finished .interrupted }))
    (calls : r.earlier < v.calls) (finishes : v.finishes = [])

namespace Leaving

variable {r : Role} {i : Nat} {v : View}

theorem handle {s : ScriptState} {t : Turn} {queue : List Turn} (ht : t.place? = some i)
    (hcomponent : s.places[i]?.map (·.component) = some r.component)
    (hqueue : (s.view i r.component).queue = queue)
    (h : Leaving r i { s.view i r.component with queue := t :: queue }) :
    Leaving r i ((handle (r.script.setup r.policy) t s).view i r.component) := by
  cases h with
  | left w slot calls finishes =>
    have hslot : s.slot? i = some (.running { w with stage := .finished .interrupted }) := slot
    have hinactive : s.isActive i = false := by
      rw [State.isActive, hslot]
      rfl
    rw [handle_inactive ht hinactive]
    exact .left w slot calls finishes
  | waits w cue awaits rung slot stage aftermath outstanding turn calls finishes =>
    have hslot : s.slot? i = some (.running w) := slot
    have hrest (hne : t ≠ .work i) : .work i ∈ queue ++ (s.view i r.component).next :=
      (List.mem_cons.1 turn).resolve_left hne.symm
    cases t with
    | work j =>
      obtain rfl : j = i := by simpa using ht
      have hview := view_work_suspended r.script r.policy (State.place_of_slot? hcomponent hslot) stage
        aftermath
      have hassess : assess r.policy w.released.expired w.released.outstanding .interrupted =
          .interrupted := by
        rw [assess, if_neg]
        rintro ⟨hexpired, hzero⟩
        simp only [Worker.released] at hexpired hzero
        rw [hexpired] at outstanding hzero
        simp only [if_true] at outstanding hzero
        omega
      rw [Run.handle, hview, View.ended]
      simp only [if_true, hassess]
      exact .left w.released rfl calls finishes
    | expire j n =>
      obtain rfl : j = i := by simpa using ht
      have hview := view_expire (c := r.component) n hslot stage
      rw [Run.handle, hview]
      split
      · next hcond =>
        rw [hcond.2] at outstanding
        refine .waits _ cue awaits rung rfl rfl aftermath ?_ ?_ calls finishes
        · simpa using outstanding
        · simpa [hqueue] using hrest (by simp)
      · refine .waits w cue awaits rung slot stage aftermath outstanding ?_ calls finishes
        rw [hqueue]
        exact hrest (by simp)
    | ring j n alarm =>
      obtain rfl : j = i := by simpa using ht
      have hview := view_ring (c := r.component) n alarm hslot stage
      rw [Run.handle, hview]
      split
      · refine .waits _ cue awaits (rung ++ [alarm]) rfl rfl aftermath outstanding ?_ calls finishes
        simpa [hqueue] using hrest (by simp)
      · refine .waits w cue awaits rung slot stage aftermath outstanding ?_ calls finishes
        rw [hqueue]
        exact hrest (by simp)
    | cancel | watch | notice | coordinate => cases ht

theorem advance (now : Float) (hqueue : v.queue = []) (h : Leaving r i v) :
    Leaving r i (v.advanced now) := by
  cases h with
  | left w slot calls finishes => exact .left w slot calls finishes
  | waits w cue awaits rung slot stage aftermath outstanding turn calls finishes =>
    refine .waits w cue awaits rung slot stage aftermath outstanding ?_ calls finishes
    rw [hqueue, List.nil_append] at turn
    simp [View.advanced, turn]

end Leaving

end Testbed.Run

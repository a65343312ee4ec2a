import Testbed.Proofs.Run.Completeness
import Testbed.Proofs.Run.Comparison

/-!
# Fail-fast

A run that fails fast goes like the one that does not, until its coordinator learns of a failure.
Then it starts nothing more, while what is underway takes its course, so that what it skips is what
the other run started from then on.
-/

namespace Testbed

open Run Clock

namespace Run

variable {p : Production} {lots lots' : Nat → Lot} {s : ScriptState} {i : Nat} {c : String}

/-- The same run with or without fail-fast. -/
def Production.withFailFast (p : Production) (failFast : Bool) : Production :=
  { p with policy := { p.policy with failFast := failFast } }

theorem Production.withFailFast_components (p : Production) (failFast : Bool) :
    (p.withFailFast failFast).components = p.components :=
  rfl

theorem Production.Sound.withFailFast (sound : p.Sound) (failFast : Bool) :
    (p.withFailFast failFast).Sound :=
  ⟨sound.orderly, sound.nodup, sound.parallelism⟩

/-- The course of a component does not depend on fail-fast. -/
theorem Production.withFailFast_course (p : Production) (failFast : Bool) (c : String) (τ : Float) :
    ((p.withFailFast failFast).role c).course τ = (p.role c).course τ := by
  have hassessment (attempt : Nat) (start : Float) :
      ((p.withFailFast failFast).role c).assessment attempt start =
        (p.role c).assessment attempt start := rfl
  have hcourse (left attempt : Nat) (start : Float) :
      ((p.withFailFast failFast).role c).courseFrom τ left attempt start =
        (p.role c).courseFrom τ left attempt start := by
    induction left generalizing attempt start with
    | zero =>
      rw [Role.courseFrom, Role.courseFrom]
      rfl
    | succ left ih =>
      rw [Role.courseFrom, Role.courseFrom, hassessment]
      cases (p.role c).assessment attempt start with
      | interrupted => rfl
      | counted answer retryable =>
        dsimp only
        split
        · exact ih (attempt + 1) ((p.role c).ends start)
        · rfl
  exact hcourse _ _ _

/-! ## After the halt -/

/-- A step that halts a run starts nothing. -/
theorem Play.step_of_halted (sound : p.Sound) (hcontrol : Control s) (hs : Play p lots s)
    (hdone : s.isDone = false) (hhalted : (Run.step p.setup s).halted = true) :
    Play p lots (Run.step p.setup s) := by
  obtain ⟨lots', hplay, honward⟩ := hs.step sound hcontrol hdone
  obtain rfl : lots' = lots := funext fun i ↦ (honward i).resolve_right (by simp [hhalted])
  exact hplay

theorem Play.steps_of_halted (sound : p.Sound) (hcontrol : Control s) (hs : Play p lots s)
    (hhalted : s.halted = true) (n : Nat) : Play p lots (Run.steps p.setup n s) := by
  refine (steps_induction (P := fun s ↦ Control s ∧ Play p lots s ∧ s.halted = true)
    (fun t hdone h ↦ ?_) ⟨hcontrol, hs, hhalted⟩ n).2.1
  obtain ⟨hcontrol, hplay, hhalted⟩ := h
  have hhalted' := step_halted p.setup_isQuiet hhalted
  exact ⟨hcontrol.step p.setup_isQuiet hdone, hplay.step_of_halted sound hcontrol hdone hhalted',
    hhalted'⟩

/-- Work has ended with a failure that the coordinator has not learned of yet. -/
theorem exists_halting (h : State.settle true s.halted s.places ≠ State.settle false s.halted s.places) :
    ∃ i o, s.finish? i = some (.outcome o) ∧ halting o.status = true := by
  by_contra hnone
  refine h (State.settle_eq_of_not_halts s.places (fun place hplace ↦ ?_) s.halted)
  obtain ⟨i, hi⟩ := List.mem_iff_getElem?.1 hplace
  rw [Place.halts]
  split
  · next o ho =>
    by_contra hhalts
    refine hnone ⟨i, o, ?_, by simpa using hhalts⟩
    rw [State.finish?, State.slot?, hi]
    exact ho
  · rfl

/-- The coordinator learns of a failure and halts the run. -/
theorem Play.step_halts (sound : p.Sound) (hs : Play p lots s) (hcancelled : s.cancelled = false)
    (hdone : s.isDone = false) (hhead : s.queue.head? = some .coordinate)
    (hfast : p.policy.failFast = true)
    (hhalting : ∃ i o, s.finish? i = some (.outcome o) ∧ halting o.status = true) :
    (Run.step p.setup s).halted = true := by
  obtain ⟨hgoing, woken, hco⟩ := hs.waiting hcancelled hdone
  obtain ⟨queue, hqueue⟩ := List.head?_eq_some_iff.1 hhead
  have hcollect {s : ScriptState} (hco : s.coordinator = .waiting woken) :
      Run.coordinate p.setup s = collect p.setup s := by
    rw [Run.coordinate, hco]
  have habort : s.abort? p.setup = none := hgoing.abort?_eq sound
  change ({ s with queue := queue } : ScriptState).abort? p.setup = none at habort
  rw [Run.step, hqueue]
  change (Run.coordinate p.setup { s with queue := queue }).halted = true
  rw [hcollect (s := { s with queue := queue }) hco, collect_eq, habort]
  dsimp only
  rw [if_neg (by simp [hcancelled]), fill_halted p.setup_isQuiet, collected_halted habort]
  exact .inr ⟨hfast, hhalting⟩

/-- Once the coordinator learns of a failure the run starts nothing more. -/
theorem Play.steps_of_halting (sound : p.Sound) (hcontrol : Control s) (hs : Play p lots s)
    (hcancelled : s.cancelled = false) (hdone : s.isDone = false)
    (hhead : s.queue.head? = some .coordinate) (hfast : p.policy.failFast = true)
    (hhalting : ∃ i o, s.finish? i = some (.outcome o) ∧ halting o.status = true) (n : Nat) :
    Play p lots (Run.steps p.setup (n + 1) s) := by
  have hhalted := hs.step_halts sound hcancelled hdone hhead hfast hhalting
  have hstep := hs.step_of_halted sound hcontrol hdone hhalted
  rw [steps_succ hdone]
  exact hstep.steps_of_halted sound (hcontrol.step p.setup_isQuiet hdone) hhalted n

/-- Work that has ended took its course. -/
theorem Going.finished (hs : Going p lots s) {o : Outcome} (hf : s.finish? i = some (.outcome o)) :
    ∃ c τ, p.components[i]? = some c ∧ lots i = .started τ ∧
      ((p.role c).course τ).2 = .outcome o ∧ tick ((p.role c).course τ).1 ≤ tick s.now := by
  obtain ⟨slot, hslot, hfinish⟩ := Option.bind_eq_some_iff.1 hf
  obtain ⟨c, hc⟩ := hs.toScene.exists_component hslot
  obtain ⟨w, rfl, hw⟩ := Slot.finish?_eq_some.1 hfinish
  have hstand := hs.standing i c hc
  cases hlot : lots i with
  | untouched =>
    rw [hlot] at hstand
    cases hstand.2.symm.trans hslot
  | started τ =>
    rw [hlot] at hstand
    refine ⟨c, τ, hc, rfl, ?_⟩
    cases hstand with
    | fresh slot =>
      cases slot.symm.trans hslot
      cases hw
    | underway attempt start w' slot pos instant course pace =>
      cases slot.symm.trans hslot
      obtain ⟨awaits, signals, hstage, -⟩ := pace.stage
      cases hstage.symm.trans hw
    | finished w' slot idle past =>
      cases slot.symm.trans hslot
      exact ⟨Stage.finished.inj hw, past⟩
    | settled o' slot => cases slot.symm.trans hslot

/-! ## Up to the halt -/

theorem withFailFast_recasts (p : Production) (failFast failFast' : Bool) :
    (p.withFailFast failFast).setup.Recasts id (p.withFailFast failFast').setup where
  start _ _ _ _ := rfl
  resume _ _ _ _ := rfl
  timeout := rfl
  retries := rfl
  captureOutput := rfl
  parallelism := rfl
  quiet := Production.setup_isQuiet _
  quiet' := Production.setup_isQuiet _

variable {now : Float} {shared : Rehearsal.Shared}

/-- The beginning of a run without the note that tells whether it fails fast. -/
def Production.blank (p : Production) (now : Float) (shared : Rehearsal.Shared) : ScriptState :=
  fill (p.withFailFast false).setup
    { State.opening (p.withFailFast false).setup .never now shared p.components with journal := [] }

/-- A run that goes on from a blank beginning, as one that fails fast or not. -/
def State.announced (p : Production) (now : Float) (failFast : Bool) (s : ScriptState) : ScriptState :=
  s.recast ⟨id, [], (State.opening (p.withFailFast failFast).setup .never now {} p.components).journal⟩

theorem begin_withFailFast (p : Production) (now : Float) (shared : Rehearsal.Shared)
    (failFast : Bool) : begin (p.withFailFast failFast).setup .never now shared p.components =
      (p.blank now shared).announced p now failFast :=
  fill_recast (r := ⟨id, [], _⟩) (withFailFast_recasts p false failFast)
    { State.opening (p.withFailFast false).setup .never now shared p.components with journal := [] }

theorem view_announced (p : Production) (now : Float) (failFast : Bool) (s : ScriptState) (i : Nat)
    (c : String) : (s.announced p now failFast).view i c = s.view i c :=
  view_recast [] rfl i c

theorem finish?_announced (p : Production) (now : Float) (failFast : Bool) (s : ScriptState) (i : Nat) :
    (s.announced p now failFast).finish? i = s.finish? i :=
  rfl

theorem isDone_announced (p : Production) (now : Float) (failFast : Bool) (s : ScriptState) :
    (s.announced p now failFast).isDone = s.isDone :=
  rfl

theorem report_announced (p : Production) (now : Float) (failFast : Bool) (s : ScriptState) :
    (s.announced p now failFast).report = s.report :=
  s.recast_report _

theorem halted_announced (p : Production) (now : Float) (failFast : Bool) (s : ScriptState) :
    (s.announced p now failFast).halted = s.halted :=
  s.recast_halted _

/-- The run that goes on is the blank one announced. -/
theorem steps_slow (p : Production) (now : Float) (shared : Rehearsal.Shared) (m : Nat) :
    steps (p.withFailFast false).setup m
        (begin (p.withFailFast false).setup .never now shared p.components) =
      (steps (p.withFailFast false).setup m (p.blank now shared)).announced p now false := by
  rw [begin_withFailFast]
  exact steps_recast (r := ⟨id, [], _⟩) (withFailFast_recasts p false false) rfl rfl m _

/-- The run that fails fast is the blank one as well, up to the turn of the coordinator at which it
learns of a failure. -/
theorem steps_fast_until (p : Production) (now : Float) (shared : Rehearsal.Shared) (n : Nat) :
    steps (p.withFailFast true).setup n
        (begin (p.withFailFast true).setup .never now shared p.components) =
      (steps (p.withFailFast false).setup n (p.blank now shared)).announced p now true ∨
    ∃ m < n, ∃ s, s = steps (p.withFailFast false).setup m (p.blank now shared) ∧ s.isDone = false ∧
      s.queue.head? = some .coordinate ∧
      State.settle true s.halted s.places ≠ State.settle false s.halted s.places ∧
      steps (p.withFailFast true).setup m
        (begin (p.withFailFast true).setup .never now shared p.components) =
          s.announced p now true := by
  rw [begin_withFailFast]
  refine (steps_recast_until (r := ⟨id, [], _⟩) (withFailFast_recasts p false true) rfl n _).imp_right ?_
  rintro ⟨m, hm, hs⟩
  exact ⟨m, hm, _, rfl, hs⟩

/-- How a run that was halted at an instant compares with the one that was not. -/
structure Shortened (p : Production) (lots lots' : Nat → Lot) (halt : Float) : Prop where
  kept : ∀ i, lots i ≠ .untouched → lots' i = lots i
  later : ∀ i τ, lots i = .untouched → lots' i = .started τ → tick halt ≤ tick τ
  failure : ∃ i c τ o, p.components[i]? = some c ∧ lots i = .started τ ∧
    ((p.role c).course τ).2 = .outcome o ∧ halting o.status = true ∧
      tick ((p.role c).course τ).1 ≤ tick halt

theorem Henceforth.shortened {failFast : Bool} (hgoing : Going (p.withFailFast failFast) lots s)
    (hhence : Henceforth s lots lots')
    (hhalting : ∃ i o, s.finish? i = some (.outcome o) ∧ halting o.status = true) :
    Shortened p lots lots' s.now := by
  obtain ⟨i, o, hf, ho⟩ := hhalting
  obtain ⟨c, τ, hc, hlot, hcourse, hpast⟩ := hgoing.finished hf
  rw [Production.withFailFast_course] at hcourse hpast
  refine ⟨fun i hi ↦ ?_, fun i τ hi hi' ↦ ?_, i, c, τ, o, hc, hlot, hcourse, ho, hpast⟩
  · exact (hhence i).resolve_right fun h ↦ hi h.1
  · obtain h | ⟨-, -, τ', hτ', hle⟩ := hhence i
    · rw [hi, hi'] at h
      cases h
    · cases hτ'.symm.trans hi'
      exact hle

variable {fast slow b : ScriptState}

/-- Nothing has halted a run that ends like the one that does not fail fast. -/
theorem Closed.started_all (hfast : Closed (p.withFailFast true) lots fast)
    (hnever : fast.cancelled = false) (hslow : Closed (p.withFailFast false) lots' slow)
    (hhalted : slow.halted = fast.halted) : ∀ i < p.components.length, lots i ≠ .untouched := by
  intro i hi huntouched
  have hhalted' := (hfast.untouched ⟨i, hi, huntouched⟩).resolve_left (by simp [hnever])
  cases (hslow.halted (hhalted.trans hhalted')).1

/-- From the turn on at which it learns of a failure the run that fails fast keeps to what it has
started, while the other one goes on. -/
theorem Play.steps_announced (sound : p.Sound)
    (hfast : Play (p.withFailFast true) lots (b.announced p now true))
    (hcontrol : Control (b.announced p now true))
    (hnever : (b.announced p now true).cancelled = false)
    (hslow : Play (p.withFailFast false) lots' (b.announced p now false))
    (hcontrol' : Control (b.announced p now false))
    (hnever' : (b.announced p now false).cancelled = false) (hongoing : b.isDone = false)
    (hhead : b.queue.head? = some .coordinate)
    (hsettle : State.settle true b.halted b.places ≠ State.settle false b.halted b.places) (n : Nat) :
    Play (p.withFailFast true) lots
        (Run.steps (p.withFailFast true).setup (n + 1) (b.announced p now true)) ∧
      ∃ lots', Play (p.withFailFast false) lots'
        (Run.steps (p.withFailFast false).setup (n + 1) (b.announced p now false)) ∧
          ∃ halt, Shortened p lots lots' halt := by
  have hongoing' (failFast : Bool) : (b.announced p now failFast).isDone = false :=
    (isDone_announced p now failFast b).trans hongoing
  have hhalting (failFast : Bool) : ∃ i o,
      (b.announced p now failFast).finish? i = some (.outcome o) ∧ halting o.status = true := by
    obtain ⟨i, o, ho, hhalts⟩ := exists_halting hsettle
    exact ⟨i, o, (finish?_announced p now failFast b i).trans ho, hhalts⟩
  -- both have started the same by then
  have hgoing := (hfast.waiting hnever (hongoing' true)).1
  have hgoing' := (hslow.waiting hnever' (hongoing' false)).1
  obtain rfl : lots' = lots := funext (hgoing.lot_congr hgoing' rfl fun i c ↦ by
    rw [view_announced, view_announced])
  obtain ⟨lots, hplay, hhence⟩ := hslow.steps (sound.withFailFast false) hcontrol' (n + 1)
  exact ⟨hfast.steps_of_halting (sound.withFailFast true) hcontrol hnever (hongoing' true) hhead rfl
    (hhalting true) n, lots, hplay, _, hhence.shortened hgoing' (hhalting false)⟩

/-- A run that fails fast, in comparison with the one that does not. -/
theorem final_withFailFast (sound : p.Sound) (hearlier : ∀ c, p.earlier c = shared.count c)
    (hnow : IsInstant now) :
    ∃ lots lots', Closed (p.withFailFast true) lots
        (final (p.withFailFast true).setup .never now shared p.components) ∧
      Closed (p.withFailFast false) lots'
        (final (p.withFailFast false).setup .never now shared p.components) ∧
      ((final (p.withFailFast true).setup .never now shared p.components).report =
          (final (p.withFailFast false).setup .never now shared p.components).report ∧
        (∀ i < p.components.length, lots i ≠ .untouched) ∨
        ∃ halt, Shortened p lots lots' halt) := by
  have hdelays : ∀ delay ∈ Cancellation.never.delays, 0 ≤ delay := by simp [Cancellation.delays]
  have hplay (failFast : Bool) := steps_play (sound.withFailFast failFast) hearlier hnow hdelays
  have hnever (failFast : Bool) :=
    steps_never (p.withFailFast failFast).setup_isQuiet now shared p.components
  have hdone (failFast : Bool) := final_isDone (sound.withFailFast failFast) hearlier hnow hdelays
  simp only [Production.withFailFast_components] at hplay hdone
  obtain ⟨n, hfast, hslow⟩ := exists_steps_eq_final (hdone true) (hdone false)
  obtain hsteps | ⟨m, hm, b, hb, hongoing, hhead, hsettle, hsteps⟩ := steps_fast_until p now shared n
  · -- fail-fast made no difference
    obtain ⟨lots, hplay₁, -⟩ := hplay true n
    obtain ⟨lots', hplay₀, -⟩ := hplay false n
    have hsteps' := steps_slow p now shared n
    have hnever' := hnever true n
    rw [hfast] at hsteps hplay₁ hnever'
    rw [hslow] at hsteps' hplay₀
    have hclosed := (hplay₁.closed (hdone true)).1
    have hclosed' := (hplay₀.closed (hdone false)).1
    refine ⟨lots, lots', hclosed, hclosed', .inl ⟨?_, hclosed.started_all hnever' hclosed' ?_⟩⟩
    · rw [hsteps, hsteps', report_announced, report_announced]
    · rw [hsteps, hsteps', halted_announced, halted_announced]
  · obtain ⟨k, rfl⟩ := Nat.exists_eq_add_of_lt hm
    obtain ⟨lots, hplay₁, hcontrol₁⟩ := hplay true m
    obtain ⟨_, hplay₀, hcontrol₀⟩ := hplay false m
    have hnever₁ := hnever true m
    have hnever₀ := hnever false m
    rw [Nat.add_assoc, steps_add] at hfast hslow
    rw [hsteps] at hplay₁ hcontrol₁ hnever₁ hfast
    rw [steps_slow, ← hb] at hplay₀ hcontrol₀ hnever₀ hslow
    obtain ⟨hplay₁, lots', hplay₀, hshortened⟩ := hplay₁.steps_announced sound hcontrol₁ hnever₁ hplay₀
      hcontrol₀ hnever₀ hongoing hhead hsettle k
    rw [hfast] at hplay₁
    rw [hslow] at hplay₀
    exact ⟨lots, lots', (hplay₁.closed (hdone true)).1, (hplay₀.closed (hdone false)).1, .inr hshortened⟩

/-! ## What the halt leaves -/

/-- The instants at which work finished whose outcome halts a run that fails fast. -/
def Ended.failures {σ : Type} (e : Ended σ) (report : Report) : List Float :=
  (report.outcomes.filter (halting ·.status)).flatMap fun o ↦ e.finishes o.component

theorem exists_first {l : List Float} (hl : ∀ t ∈ l, IsInstant t) (hne : l ≠ []) :
    ∃ first ∈ l, ∀ t ∈ l, first ≤ t := by
  obtain ⟨first, hfirst⟩ := Option.ne_none_iff_exists'.1 (mt (List.argmin_eq_none (f := tick)).1 hne)
  have hmem := List.argmin_mem hfirst
  exact ⟨first, hmem, fun t ht ↦
    (le_iff_tick (hl first hmem) (hl t ht)).2 (List.le_of_mem_argmin ht hfirst)⟩

variable {halt : Float} {o o' : Outcome}

section Ends

variable (hfast : Closed (p.withFailFast true) lots fast) (hnever : fast.cancelled = false)
  (hslow : Closed (p.withFailFast false) lots' slow) (hnever' : slow.cancelled = false)
  (hc : p.components[i]? = some c)
include hslow hnever' hc

/-- Without fail-fast every component takes its course. -/
theorem Closed.course_slow (ho' : slow.report.outcomes[i]? = some o') :
    ∃ τ, lots' i = .started τ ∧ IsInstant τ ∧ ((p.role c).course τ).2 = .outcome o' ∧
      slow.ended.starts c = [τ] ∧ slow.ended.finishes c = [((p.role c).course τ).1] := by
  obtain ⟨τ, -, hlot, -⟩ := hslow.tested hnever' rfl hc
  obtain ⟨hcourse, -, hstarts, hfinishes⟩ := hslow.finished hnever' hc ho' hlot
  rw [Production.withFailFast_course] at hcourse hfinishes
  exact ⟨τ, hlot, (hslow.since i τ hlot).1, hcourse, hstarts, hfinishes⟩

include hfast hnever

/-- A component that was started takes the same course in both runs. -/
theorem Shortened.outcome_eq (h : Shortened p lots lots' halt) (hlot : lots i ≠ .untouched)
    (ho : fast.report.outcomes[i]? = some o) (ho' : slow.report.outcomes[i]? = some o') : o = o' := by
  obtain ⟨τ, hlot', -, hcourse', -⟩ := hslow.course_slow hnever' hc ho'
  rw [h.kept i hlot] at hlot'
  obtain ⟨hcourse, -⟩ := hfast.finished hnever hc ho hlot'
  rw [Production.withFailFast_course] at hcourse
  cases hcourse.symm.trans hcourse'
  rfl

end Ends

section Failures

variable (sound : p.Sound) (hslow : Closed (p.withFailFast false) lots' slow)
  (hnever : slow.cancelled = false) (h : Shortened p lots lots' halt)
include sound hslow hnever

theorem Closed.isInstant_failures : ∀ t ∈ slow.ended.failures slow.report, IsInstant t := by
  intro t ht
  obtain ⟨o, ho, ht⟩ := List.mem_flatMap.1 ht
  obtain ⟨i, hi⟩ := List.mem_iff_getElem?.1 (List.mem_filter.1 ho).1
  obtain ⟨c, hc⟩ := hslow.exists_component hi
  obtain ⟨τ, -, hτ, -, -, hfinishes⟩ := hslow.course_slow hnever hc hi
  rw [(hslow.fate hc hi).component sound.orderly] at ht
  rw [show ((p.withFailFast false).role c).component = c from rfl, hfinishes,
    List.mem_singleton] at ht
  rw [ht]
  exact (Role.isInstant_course (r := p.role c) (sound.orderly.delay c) hτ).1

include h

/-- The failure that halted the run that fails fast is one of the other run, too. -/
theorem Shortened.exists_failure : ∃ o ∈ slow.report.outcomes, halting o.status = true ∧
    ∃ t ∈ slow.ended.failures slow.report, tick t ≤ tick halt := by
  obtain ⟨i, c, τ, o, hc, hlot, hcourse, hhalts, hpast⟩ := h.failure
  obtain ⟨o', ho'⟩ := hslow.exists_outcome hc
  obtain ⟨τ', hlot', -, hcourse', -, hfinishes⟩ := hslow.course_slow hnever hc ho'
  rw [h.kept i (by rw [hlot]; nofun), hlot] at hlot'
  cases hlot'
  cases hcourse.symm.trans hcourse'
  refine ⟨o, List.mem_of_getElem? ho', hhalts, _, List.mem_flatMap.2 ⟨o, ?_, ?_⟩, hpast⟩
  · exact List.mem_filter.2 ⟨List.mem_of_getElem? ho', hhalts⟩
  · rw [(hslow.fate hc ho').component sound.orderly,
      show ((p.withFailFast false).role c).component = c from rfl, hfinishes]
    exact List.mem_singleton_self _

/-- What is skipped by the run that fails fast starts in the other one after the first failure. -/
theorem Shortened.starts_after (hlot : lots i = .untouched)
    (hc : p.components[i]? = some c) :
    ∃ first ∈ slow.ended.failures slow.report,
      (∀ t ∈ slow.ended.failures slow.report, first ≤ t) ∧
        ∃ τ, slow.ended.starts c = [τ] ∧ first ≤ τ := by
  have hinstants := hslow.isInstant_failures sound hnever
  obtain ⟨-, -, -, t, ht, hle⟩ := h.exists_failure sound hslow hnever
  obtain ⟨first, hfirst, hleast⟩ := exists_first hinstants (List.ne_nil_of_mem ht)
  obtain ⟨o', ho'⟩ := hslow.exists_outcome hc
  obtain ⟨τ, hlot', hτ, -, hstarts, -⟩ := hslow.course_slow hnever hc ho'
  refine ⟨first, hfirst, hleast, τ, hstarts, (le_iff_tick (hinstants _ hfirst) hτ).2 ?_⟩
  have hfirst' := (le_iff_tick (hinstants _ hfirst) (hinstants _ ht)).1 (hleast t ht)
  exact hfirst'.trans (hle.trans (h.later i τ hlot hlot'))

end Failures

/-- Statuses of which those before a place pass, except for the last of them, and the rest are
skipped. -/
theorem exists_stop {statuses : List Status} {k : Nat}
    (hstarted : ∀ i status, statuses[i]? = some status → i < k →
      status ∈ [.passed, .failed, .errored])
    (hpassed : ∀ i status, statuses[i]? = some status → i + 1 < k → status = .passed)
    (hskipped : ∀ i status, statuses[i]? = some status → k ≤ i → status = .skipped) :
    ∃ (n m : Nat) (stop : List Status), stop ∈ [[], [.failed], [.errored]] ∧
      statuses = List.replicate n .passed ++ stop ++ List.replicate m .skipped := by
  have hrest {l : List Status} (h : ∀ (i : Nat) status, l[i]? = some status → status = .skipped) :
      l = List.replicate l.length .skipped := by
    refine List.eq_replicate_iff.2 ⟨rfl, fun status hstatus ↦ ?_⟩
    obtain ⟨i, hi⟩ := List.mem_iff_getElem?.1 hstatus
    exact h i status hi
  induction statuses generalizing k with
  | nil => exact ⟨0, 0, [], by simp, rfl⟩
  | cons status rest ih =>
    match k with
    | 0 =>
      exact ⟨0, rest.length + 1, [], by simp, hrest fun i status h ↦ hskipped i status h (Nat.zero_le i)⟩
    | 1 =>
      have hrest := hrest fun i status h ↦ hskipped (i + 1) status h (by omega)
      have hlast := hstarted 0 status rfl Nat.zero_lt_one
      simp only [List.mem_cons, List.not_mem_nil, or_false] at hlast
      obtain rfl | hlast := hlast
      · exact ⟨1, rest.length, [], by simp, congrArg (Status.passed :: ·) hrest⟩
      · exact ⟨0, rest.length, [status], by simpa using hlast, congrArg (status :: ·) hrest⟩
    | k + 2 =>
      obtain rfl := hpassed 0 status rfl (by omega)
      obtain ⟨n, m, stop, hstop, rfl⟩ := ih (k := k + 1)
        (fun i status h hi ↦ hstarted (i + 1) status h (by omega))
        (fun i status h hi ↦ hpassed (i + 1) status h (by omega))
        fun i status h hi ↦ hskipped (i + 1) status h (by omega)
      exact ⟨n + 1, m, stop, hstop, rfl⟩

theorem Closed.status_of_started (hs : Closed p lots s) (orderly : p.script.Orderly)
    (hnever : s.cancelled = false) (ho : s.report.outcomes[i]? = some o) (hlot : lots i ≠ .untouched) :
    o.status ∈ [.passed, .failed, .errored] := by
  obtain ⟨c, hc⟩ := hs.exists_component ho
  cases hlot' : lots i with
  | untouched => exact absurd hlot' hlot
  | started τ => exact Role.course_status orderly (hs.finished hnever hc ho hlot').1

/-- One at a time, components pass until one does not, and what comes after that one is skipped. -/
theorem Closed.solo_statuses (sound : p.Sound) (hfast : p.policy.failFast = true)
    (hone : p.policy.parallelism ≤ 1) (hs : Closed p lots s) (hnever : s.cancelled = false) :
    ∃ (n m : Nat) (stop : List Status), stop ∈ [[], [.failed], [.errored]] ∧
      s.report.outcomes.map (·.status) =
        List.replicate n .passed ++ stop ++ List.replicate m .skipped := by
  obtain ⟨k, -, hlots⟩ := hs.started
  have htouched {i : Nat} (hi : i < k) : lots i ≠ .untouched :=
    fun hlot ↦ absurd ((hlots i).1 hlot) (Nat.not_le.2 hi)
  have houtcome {i : Nat} {status : Status}
      (h : (s.report.outcomes.map (·.status))[i]? = some status) :
      ∃ o, s.report.outcomes[i]? = some o ∧ o.status = status := by
    rwa [List.getElem?_map, Option.map_eq_some_iff] at h
  refine exists_stop (k := k) (fun i status h hi ↦ ?started) (fun i status h hi ↦ ?passed)
    fun i status h hi ↦ ?skipped
  all_goals obtain ⟨o, ho, rfl⟩ := houtcome h
  case started => exact hs.status_of_started sound.orderly hnever ho (htouched hi)
  case passed =>
    obtain ⟨o', ho', hhalts⟩ := hs.solo hfast hone (i + 1) (htouched hi) i (Nat.lt_succ_self i)
    obtain rfl := Option.some_inj.1 (ho.symm.trans (hs.outcomes_getElem?.2 ho'))
    have hstatus := hs.status_of_started sound.orderly hnever ho (htouched (Nat.lt_of_succ_lt hi))
    simp only [halting] at hhalts
    revert hstatus hhalts
    cases o.status <;> simp
  case skipped =>
    obtain ⟨c, hc⟩ := hs.exists_component ho
    rw [hs.skipped_of_untouched hc ho ((hlots i).2 hi)]
    rfl

section Truncation

variable (sound : p.Sound) (hfast : Closed (p.withFailFast true) lots fast)
  (hnever : fast.cancelled = false) (hslow : Closed (p.withFailFast false) lots' slow)
  (hnever' : slow.cancelled = false)
  (hends : fast.report = slow.report ∧ (∀ i < p.components.length, lots i ≠ .untouched) ∨
    ∃ halt, Shortened p lots lots' halt)
include sound hfast hnever

omit sound in
theorem Closed.skipped_iff (orderly : p.script.Orderly) (hc : p.components[i]? = some c)
    (ho : fast.report.outcomes[i]? = some o) : o.status = .skipped ↔ lots i = .untouched := by
  constructor
  · intro hstatus
    by_contra hlot
    have hstatus' := hfast.status_of_started orderly hnever ho hlot
    simp [hstatus] at hstatus'
  · intro hlot
    rw [hfast.skipped_of_untouched hc ho hlot]
    rfl

include hslow hnever' hends

theorem truncation_outcomes : ∃ k, ∀ (i : Nat) (o o' : Outcome),
    fast.report.outcomes[i]? = some o → slow.report.outcomes[i]? = some o' →
      (i < k → o.status ≠ .skipped ∧ o = o') ∧
      (k ≤ i → o.status = .skipped ∧ o.diagnostics = some skippedFailFast ∧ o.attempts = 0) := by
  obtain ⟨k, -, hlots⟩ := hfast.started
  refine ⟨k, fun i o o' ho ho' ↦ ?_⟩
  obtain ⟨c, hc⟩ := hfast.exists_component ho
  have hskipped := hfast.skipped_iff hnever sound.orderly hc ho
  refine ⟨fun hi ↦ ?_, fun hi ↦ ?_⟩
  · have hlot : lots i ≠ .untouched := fun hlot ↦ absurd ((hlots i).1 hlot) (by omega)
    refine ⟨mt hskipped.1 hlot, ?_⟩
    obtain ⟨hreports, -⟩ | ⟨halt, hshortened⟩ := hends
    · rw [hreports] at ho
      exact Option.some_inj.1 (ho.symm.trans ho')
    · exact hshortened.outcome_eq hfast hnever hslow hnever' hc hlot ho ho'
  · rw [hfast.skipped_of_untouched hc ho ((hlots i).2 hi), hnever]
    exact ⟨rfl, rfl, rfl⟩

theorem truncation_starts (ho : o ∈ fast.report.outcomes) (hstatus : o.status = .skipped) :
    ∃ first ∈ slow.ended.failures slow.report,
      (∀ t ∈ slow.ended.failures slow.report, first ≤ t) ∧
        ∃ τ, slow.ended.starts o.component = [τ] ∧ first ≤ τ := by
  obtain ⟨i, hi⟩ := List.mem_iff_getElem?.1 ho
  obtain ⟨c, hc⟩ := hfast.exists_component hi
  have hlot := (hfast.skipped_iff hnever sound.orderly hc hi).1 hstatus
  obtain ⟨-, hstarted⟩ | ⟨halt, hshortened⟩ := hends
  · exact absurd hlot (hstarted i (List.getElem?_eq_some_iff.1 hc).1)
  · rw [(hfast.fate hc hi).component sound.orderly]
    exact hshortened.starts_after sound hslow hnever' hlot hc

omit hfast hnever in
theorem truncation_none (hnone : ∀ o' ∈ slow.report.outcomes, halting o'.status = false) :
    fast.report = slow.report := by
  obtain ⟨hreports, -⟩ | ⟨halt, hshortened⟩ := hends
  · exact hreports
  · obtain ⟨o, ho, hhalts, -⟩ := hshortened.exists_failure sound hslow hnever'
    rw [hnone o ho] at hhalts
    cases hhalts

end Truncation

/-! ## Whole runs -/

section Execution

variable {registry : Registry} {components : List String} {script : Script} {policy : Policy}

/-- Failing fast cuts a run short and changes nothing else: what is skipped comes last and would not
have started before the first failure, and all other outcomes are the same. -/
theorem execute_failFast_truncates (hlist : registry.list = .ok components)
    (hparallelism : 1 ≤ policy.parallelism) (orderly : script.Orderly) (hnow : IsInstant now) :
    let fast := execute (script.setup { policy with failFast := true }) .never now shared components
    let slow := execute (script.setup { policy with failFast := false }) .never now shared components
    ∃ report report' : Report, fast.report = .ok report ∧ slow.report = .ok report' ∧
      report.outcomes.map (·.component) = components ∧
      report'.outcomes.map (·.component) = components ∧
      (∃ k, ∀ (i : Nat) (o o' : Outcome), report.outcomes[i]? = some o →
        report'.outcomes[i]? = some o' →
          (i < k → o.status ≠ .skipped ∧ o = o') ∧
          (k ≤ i → o.status = .skipped ∧ o.diagnostics = some skippedFailFast ∧ o.attempts = 0)) ∧
      (∀ o ∈ report.outcomes, o.status = .skipped →
        ∃ first ∈ slow.failures report', (∀ t ∈ slow.failures report', first ≤ t) ∧
          ∃ τ, slow.starts o.component = [τ] ∧ first ≤ τ) ∧
      ((∀ o' ∈ report'.outcomes, halting o'.status = false) → report = report') ∧
      (policy.parallelism = 1 → ∃ (n m : Nat) (stop : List Status),
        stop ∈ [[], [.failed], [.errored]] ∧ report.outcomes.map (·.status) =
          List.replicate n .passed ++ stop ++ List.replicate m .skipped) := by
  have sound := Production.sound_of shared hlist orderly hparallelism
  have hdelays : ∀ delay ∈ Cancellation.never.delays, 0 ≤ delay := by simp [Cancellation.delays]
  have hreport (failFast : Bool) : (execute (script.setup { policy with failFast := failFast }) .never
      now shared components).report = .ok (final (script.setup { policy with failFast := failFast })
        .never now shared components).report := by
    have hparallelism' : 1 ≤ ({ policy with failFast := failFast } : Policy).parallelism :=
      hparallelism
    obtain ⟨_, _, hreport⟩ := final_closed shared hlist hparallelism' orderly hnow hdelays
    exact hreport
  have hnever (failFast : Bool) :=
    final_never (Script.setup_isQuiet script { policy with failFast := failFast }) now shared components
  obtain ⟨lots, lots', hfast, hslow, hends⟩ := final_withFailFast sound (fun _ ↦ rfl) hnow
  exact ⟨_, _, hreport true, hreport false, hfast.outcomes_components (sound.withFailFast true),
    hslow.outcomes_components (sound.withFailFast false),
    truncation_outcomes sound hfast (hnever true) hslow (hnever false) hends,
    fun o ↦ truncation_starts sound hfast (hnever true) hslow (hnever false) hends,
    truncation_none sound hslow (hnever false) hends,
    fun hone ↦ hfast.solo_statuses (sound.withFailFast true) rfl hone.le (hnever true)⟩

theorem execute_failFast_truncates_failing :
    (⟨["alpha", "beta"]⟩ : Registry).list = .ok ["alpha", "beta"] ∧
      ∃ report : Report, (execute (Script.failing.setup { failFast := true }) .never 0.0 {}
        ["alpha", "beta"]).report = .ok report ∧
          ∃ (n m : Nat) (stop : List Status), stop ∈ [[], [.failed], [.errored]] ∧
            report.outcomes.map (·.status) =
              List.replicate n .passed ++ stop ++ List.replicate m .skipped :=
  have hlist : (⟨["alpha", "beta"]⟩ : Registry).list = .ok ["alpha", "beta"] := by decide +kernel
  have hparallelism : 1 ≤ ({} : Policy).parallelism := by decide
  have ⟨report, _, hreport, _, _, _, _, _, _, hsolo⟩ :=
    execute_failFast_truncates hlist hparallelism Script.failing_orderly (by decide +kernel)
  ⟨hlist, report, hreport, hsolo rfl⟩

end Execution

end Run

end Testbed

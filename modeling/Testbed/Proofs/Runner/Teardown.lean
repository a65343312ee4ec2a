import Testbed.Proofs.Run.Endings
import Testbed.Proofs.Runner.Capture

/-!
# Interruptions of a runner's own

An attempt that nobody interrupted can still end in an interruption, if its runner says so.  It tears
the run down: all other work is interrupted, and no report comes of it.  This is the only difference
that such an ending makes.  A run that is not torn down has gone as if the runner had failed instead.
-/

namespace Testbed

open Run Clock

namespace Run

variable {σ ι : Type} {setup : Setup σ ι} {s s' : State σ ι} {i : Nat} {c : String}

/-! ## Work that has not failed -/

/-- The work of a slot has not ended in a failure of the listener. -/
def Slot.IsHeard (slot : Slot ι) : Prop :=
  ∀ failure, slot.finish? ≠ some (.failed failure)

theorem Slot.isHeard_of_none {slot : Slot ι} (h : slot.finish? = none) : slot.IsHeard :=
  fun _ hfinish ↦ by cases h.symm.trans hfinish

theorem Setup.Leads.isHeard {now : Float} {w w' : Worker ι} {reply : Reply ι Ending}
    (h : setup.Leads now c w reply w') : (Slot.running w').IsHeard := by
  induction h with
  | yields | waits => exact Slot.isHeard_of_none rfl
  | interrupted | concludes =>
    intro failure hfinish
    cases hfinish
  | again _ _ _ _ _ _ ih => exact ih

/-- A run whose listener does not fail has no work that ends in such a failure. -/
theorem Setup.keeps_isHeard (setup : Setup σ ι) : setup.Keeps fun _ slot ↦ slot.IsHeard where
  change c slot slot' h hs := by
    cases h with
    | launches => exact Slot.isHeard_of_none rfl
    | goes _ _ leads => exact leads.isHeard
    | rings => exact Slot.isHeard_of_none rfl
    | expires stage =>
      rw [Slot.interrupted, stage]
      exact Slot.isHeard_of_none rfl
    | settles =>
      unfold Slot.settle
      split
      · exact Slot.isHeard_of_none rfl
      · exact hs
  closes c slot slot' h hs := by
    cases h with
    | interrupts =>
      intro failure
      rw [Slot.finish?_interrupted]
      exact hs failure
    | drains =>
      obtain hsame | ⟨o, hdrained, -⟩ := slot.drained_cases c
      · rwa [hsame]
      · rw [hdrained]
        exact Slot.isHeard_of_none rfl
    | skips =>
      cases slot with
      | pending => exact Slot.isHeard_of_none rfl
      | running | settled => exact hs

/-- Nothing but an interruption aborts the settling of such work. -/
theorem settle_abort_interrupted {places : List (Place ι)} (h : ∀ p ∈ places, p.slot.IsHeard)
    (failFast halted : Bool) : (State.settle failFast halted places).abort = none ∨
      (State.settle failFast halted places).abort = some .interrupted := by
  induction places generalizing halted with
  | nil => exact .inl rfl
  | cons p places ih =>
    obtain ⟨hp, hplaces⟩ := List.forall_mem_cons.1 h
    rw [State.settle]
    split
    · exact ih hplaces halted
    · exact ih hplaces _
    · next failure hfinish => exact absurd hfinish (hp failure)
    · exact .inr rfl

theorem abort?_cases (setup : Setup σ ι) (hheard : s.All fun _ slot ↦ slot.IsHeard) :
    s.abort? setup = none ∧ (∀ i, s.finish? i ≠ some .interrupted) ∨
      s.abort? setup = some .interrupted ∧ ∃ i, s.finish? i = some .interrupted := by
  have hsettle := State.settle_abort setup.policy.failFast s.halted s.places
  by_cases hfinish : ∃ i, s.finish? i = some .interrupted
  · refine .inr ⟨(settle_abort_interrupted hheard _ _).resolve_left fun hnone ↦ ?_, hfinish⟩
    obtain ⟨i, hi⟩ := hfinish
    obtain ⟨slot, hslot, hf⟩ := Option.bind_eq_some_iff.1 hi
    obtain ⟨c, hplace⟩ := State.slot?_eq_some.1 hslot
    obtain ⟨o, ho⟩ := hsettle.1 hnone _ (List.mem_of_getElem? hplace) _ hf
    cases ho
  · refine .inl ⟨hsettle.2 fun p hp f hf ↦ ?_, fun i hi ↦ hfinish ⟨i, hi⟩⟩
    cases f with
    | outcome o => exact ⟨o, rfl⟩
    | failed failure => exact absurd hf (hheard p hp failure)
    | interrupted =>
      obtain ⟨i, hi⟩ := List.mem_iff_getElem?.1 hp
      exact absurd ⟨i, by rw [State.finish?, State.slot?, hi]; exact hf⟩ hfinish

/-! ## Runs that are torn down -/

/-- The run is torn down, or will be as soon as the coordinator has its turn. -/
def State.Torn (s : State σ ι) : Prop :=
  match s.coordinator with
  | .waiting _ => ∃ i, s.finish? i = some .interrupted
  | .draining _ cause => cause = some .interrupted
  | .done abort => abort = some .interrupted

/-- The run goes on, or has come to its end, without work that ended in an interruption. -/
def State.Whole (s : State σ ι) : Prop :=
  (∀ i, s.finish? i ≠ some .interrupted) ∧
    match s.coordinator with
    | .waiting _ => True
    | .draining _ _ => False
    | .done abort => abort = none

/-- Work that ended in an interruption tears the run down. -/
def State.Tears (s : State σ ι) : Prop :=
  s.Torn ∧ ∃ i, s.finish? i = some .interrupted

/-- While the coordinator waits, a run is whole until such work tears it down. -/
theorem State.whole_or_tears {woken : Bool} (hco : s.coordinator = .waiting woken) :
    s.Whole ∨ s.Tears := by
  rw [Whole, Tears, Torn, hco]
  by_cases h : ∃ i, s.finish? i = some .interrupted
  · exact .inr ⟨h, h⟩
  · exact .inl ⟨fun i hi ↦ h ⟨i, hi⟩, trivial⟩

theorem State.Whole.not_torn (hs : s.Whole) : ¬ s.Torn := by
  obtain ⟨hfinish, hco⟩ := hs
  rw [Torn]
  split at hco
  · exact fun ⟨i, hi⟩ ↦ hfinish i hi
  · exact hco.elim
  · rw [hco]
    exact nofun

namespace State.Torn

theorem told (hs : s.Torn) {t : Turn} (ht : t.place? = none) (hne : t ≠ .coordinate)
    (setup : Setup σ ι) : (handle setup t s).Torn := by
  have h := handle_tells setup ht hne s
  have hfinish (i : Nat) : (handle setup t s).finish? i = s.finish? i := by
    rw [finish?, h.slot?, finish?]
  simp only [Torn] at hs ⊢
  obtain hco | ⟨hco, hco'⟩ | ⟨left, cause, hco, hco'⟩ := h.coordinator
  · simpa only [hco, hfinish] using hs
  · simpa only [hco, hco', hfinish] using hs
  · simpa only [hco, hco'] using hs

theorem conducted (quiet : setup.IsQuiet) (hheard : s.All fun _ slot ↦ slot.IsHeard) (hs : s.Torn) :
    (coordinate setup s).Torn := by
  have hconducts := coordinate_conducts setup s
  have habort {woken : Bool} (hco : s.coordinator = .waiting woken) :
      s.abort? setup = some .interrupted := by
    obtain ⟨-, hnone⟩ | ⟨habort, -⟩ := abort?_cases setup hheard
    · rw [Torn, hco] at hs
      obtain ⟨i, hi⟩ := hs
      exact absurd hi (hnone i)
    · exact habort
  generalize coordinate setup s = s' at hconducts
  cases hconducts with
  | waits hco hnone | completes hco hnone | drains hco hnone | ends hco hnone =>
    cases (habort hco).symm.trans hnone
  | aborts hco haborted =>
    obtain rfl := Option.some_inj.1 ((habort hco).symm.trans haborted)
    rw [Torn, drain_coordinator]
  | drained hco =>
    rw [Torn, hco] at hs
    rw [Torn, concludeDrain_coordinator quiet]
    exact hs
  | rests => exact hs

/-- A run that is torn down stays so. -/
theorem step (quiet : setup.IsQuiet) (hheard : s.All fun _ slot ↦ slot.IsHeard) (hs : s.Torn) :
    (step setup s).Torn := by
  unfold Run.step
  split
  · next t queue _ =>
    have hrest : State.Torn { s with queue := queue } := hs
    have hheard' : State.All (fun _ slot ↦ slot.IsHeard) { s with queue := queue } := hheard
    obtain ⟨i, ht⟩ | rfl | ⟨ht, hne⟩ := t.kinds
    · have hturned := handle_turned quiet ht { s with queue := queue }
      rw [Torn, hturned.coordinator]
      rw [Torn] at hrest
      split at hrest
      · obtain ⟨j, hj⟩ := hrest
        exact ⟨j, hturned.finish?_kept hj⟩
      · exact hrest
      · exact hrest
    · exact hrest.conducted quiet hheard'
    · exact hrest.told ht hne setup
  · exact hs

theorem steps (quiet : setup.IsQuiet) (hheard : s.All fun _ slot ↦ slot.IsHeard) (hs : s.Torn)
    (n : Nat) : (steps setup n s).Torn :=
  (steps_induction (P := fun t ↦ t.All (fun _ slot ↦ slot.IsHeard) ∧ t.Torn)
    (fun _ _ ⟨hheard, hs⟩ ↦ ⟨step_all quiet setup.keeps_isHeard.change
      (fun _ ↦ setup.keeps_isHeard.closes) hheard, hs.step quiet hheard⟩) ⟨hheard, hs⟩ n).2

end State.Torn

namespace State.Whole

theorem complete (quiet : setup.IsQuiet) (hidle : s.runningCount = 0) : (complete setup s).Whole := by
  obtain ⟨new, heq, -⟩ := complete_eq quiet s
  rw [heq]
  refine ⟨fun i hi ↦ ?_, rfl⟩
  obtain ⟨slot, hslot, hf⟩ := Option.bind_eq_some_iff.1 hi
  obtain ⟨c, hplace⟩ := State.slot?_eq_some.1 hslot
  obtain ⟨p, hp, hskip⟩ := List.mem_map.1 (List.mem_of_getElem? hplace)
  have hrunning : p.slot.isRunning = false := by simpa using List.countP_eq_zero.1 hidle p hp
  obtain ⟨c', slot'⟩ := p
  cases slot' with
  | pending | settled =>
    cases hskip
    cases hf
  | running => cases hrunning

theorem fill (quiet : setup.IsQuiet) (s : State σ ι) : (fill setup s).Whole ∨ (fill setup s).Tears := by
  rw [fill_eq]
  split
  · next hidle => exact .inl (complete quiet hidle)
  · exact whole_or_tears rfl

/-- The coordinator of a whole run that is not cancelled waits until the run is over. -/
theorem exists_waiting (hs : s.Whole) (hdone : s.isDone = false) :
    ∃ woken, s.coordinator = .waiting woken := by
  have hwhole := hs.2
  rw [State.isDone] at hdone
  split at hwhole
  · next woken hco => exact ⟨woken, hco⟩
  · exact hwhole.elim
  · next hco => simp [hco] at hdone

/-- When the coordinator of such a run has its turn, it records what has ended and goes on. -/
theorem coordinate_eq (hcancelled : s.cancelled = false) (hheard : s.All fun _ slot ↦ slot.IsHeard)
    (hs : s.Whole) {woken : Bool} (hco : s.coordinator = .waiting woken) :
    coordinate setup s = Run.fill setup (s.collected setup) := by
  have hnone : s.abort? setup = none := by
    obtain ⟨hnone, -⟩ | ⟨-, i, hi⟩ := abort?_cases setup hheard
    · exact hnone
    · exact absurd hi (hs.1 i)
  rw [coordinate, hco]
  dsimp only
  rw [collect_eq, hnone, hcancelled]
  rfl

/-- A run that is not cancelled stays whole, unless the step ends work in an interruption. -/
theorem step (quiet : setup.IsQuiet) (hcancelled : s.cancelled = false)
    (hheard : s.All fun _ slot ↦ slot.IsHeard) (hs : s.Whole) (hdone : s.isDone = false) :
    (step setup s).Whole ∨ (step setup s).Tears := by
  obtain ⟨woken, hco⟩ := hs.exists_waiting hdone
  unfold Run.step
  split
  · next t queue _ =>
    have hrest : State.Whole { s with queue := queue } := hs
    obtain ⟨i, ht⟩ | rfl | ⟨ht, hne⟩ := t.kinds
    · have hturned := handle_turned quiet ht { s with queue := queue }
      exact whole_or_tears (hturned.coordinator.trans hco)
    · rw [handle, coordinate_eq (s := { s with queue := queue }) hcancelled hheard hrest hco]
      exact fill quiet _
    · obtain hco' | ⟨-, hco'⟩ | ⟨left, cause, hco', -⟩ :=
        (handle_tells setup ht hne { s with queue := queue }).coordinator
      · exact whole_or_tears (hco'.trans hco)
      · exact whole_or_tears hco'
      · cases hco.symm.trans hco'
  · exact .inl hs

end State.Whole

/-! ## Runs that are never cancelled -/

section Never

variable (quiet : setup.IsQuiet) (now : Float) (shared : σ) (components : List String)
include quiet

theorem steps_isHeard (cancellation : Cancellation) (n : Nat) :
    (steps setup n (begin setup cancellation now shared components)).All fun _ slot ↦ slot.IsHeard := by
  have keeps := setup.keeps_isHeard
  apply keeps.steps quiet
  exact keeps.begin quiet (fun _ ↦ Slot.isHeard_of_none rfl) cancellation now shared components

/-- At any time a run that is never cancelled is whole, or work has torn it down before. -/
theorem steps_whole_or_torn (n : Nat) :
    (steps setup n (begin setup .never now shared components)).Whole ∨
      (steps setup n (begin setup .never now shared components)).Torn ∧
        ∃ m i, (steps setup m (begin setup .never now shared components)).finish? i =
          some .interrupted := by
  induction n with
  | zero =>
    rw [steps, begin_eq]
    exact (State.Whole.fill quiet _).imp id fun h ↦ ⟨h.1, 0, h.2⟩
  | succ n ih =>
    have hnever := steps_never quiet now shared components n
    have hheard := steps_isHeard quiet now shared components .never n
    rw [steps_add n 1]
    obtain hwhole | ⟨htorn, hearlier⟩ := ih
    · cases hdone : (steps setup n (begin setup .never now shared components)).isDone with
      | true =>
        rw [steps_of_isDone hdone]
        exact .inl hwhole
      | false =>
        obtain hstep | ⟨htorn, i, hi⟩ := hwhole.step quiet hnever hheard hdone
        · rw [steps_succ hdone]
          exact .inl hstep
        · refine .inr ⟨?_, n + 1, i, ?_⟩
          · rwa [steps_succ hdone]
          · rwa [steps_add n 1, steps_succ hdone]
    · exact .inr ⟨htorn.steps quiet hheard 1, hearlier⟩

/-- A run that is never cancelled ends without a report exactly if work on a component has ended in an
interruption. -/
theorem execute_interrupted_iff (hdone : (final setup .never now shared components).isDone = true) :
    (execute setup .never now shared components).report = .error .interrupted ↔
      ∃ n i, (steps setup n (begin setup .never now shared components)).finish? i =
        some .interrupted := by
  have hreport : (execute setup .never now shared components).report = .error .interrupted ↔
      (final setup .never now shared components).Torn := by
    rw [execute, State.ended, State.Torn]
    rw [State.isDone] at hdone
    dsimp only
    split at hdone
    · next abort hco =>
      rw [hco]
      cases abort <;> simp
    · cases hdone
  rw [hreport]
  constructor
  · intro htorn
    obtain hwhole | ⟨-, hearlier⟩ :=
      steps_whole_or_torn quiet now shared components (turnBound setup .never components)
    · exact absurd htorn hwhole.not_torn
    · exact hearlier
  · rintro ⟨n, i, hi⟩
    obtain hwhole | ⟨htorn, -⟩ := steps_whole_or_torn quiet now shared components n
    · exact absurd hi (hwhole.1 i)
    · rw [final_eq_steps hdone n]
      exact htorn.steps quiet (steps_isHeard quiet now shared components .never n) _

end Never

end Run

/-! ## Scripts with interruptions -/

/-- An ending, or a failure in place of an interruption. -/
inductive Ending.Mends : Ending → Ending → Prop
  | same (ending : Ending) : Mends ending ending
  | failed (failure : Failure) : Mends .interrupted (.raised failure)

/-- A script in which failures stand in place of interruptions. -/
structure Script.Mends (script script' : Script) : Prop where
  delay (component : String) : script'.delay component = script.delay component
  entries (component : String) :
    List.Forall₂ Ending.Mends (script.entries component) (script'.entries component)

namespace Rehearsal

/-- Invocations that wait alike and then end as scripts do of which one mends the other. -/
inductive Mends : Invocation → Invocation → Prop
  | waiting (delay : Float) {ending ending' : Ending} (h : ending.Mends ending') :
    Mends (.waiting { delay, ending }) (.waiting { delay, ending := ending' })

/-- Runs that part when an interruption is not mended. -/
def mendingBond : Bond Shared Invocation where
  shared := Eq
  invocation := Mends
  ending := Ending.Mends
  diagnostics _ d d' := d = d'
  parting := True

theorem mendingBond_judges (policy : Policy) {ending ending' : Ending} (h : ending.Mends ending')
    (expired : Bool) (outstanding : Nat) (component : String) :
    assess policy expired outstanding ending = .interrupted ∨
      mendingBond.Assessments (assess policy expired outstanding ending)
          (assess policy expired outstanding ending') ∧
        assessmentNotes policy expired outstanding component ending' =
          assessmentNotes policy expired outstanding component ending := by
  cases h with
  | same =>
    refine .inr ⟨?_, rfl⟩
    cases assess policy expired outstanding ending with
    | interrupted => exact .interrupted
    | counted answer retryable => exact .counted rfl retryable
  | failed failure =>
    by_cases hlate : expired = true ∧ outstanding = 0
    · obtain ⟨rfl, rfl⟩ := hlate
      exact .inr ⟨.counted rfl false, rfl⟩
    · exact .inl (if_neg hlate)

theorem cue_mends {script script' : Script} (mends : script.Mends script') (component : String)
    (n : Nat) : Mends (.waiting (script.cue component n)) (.waiting (script'.cue component n)) := by
  have hentries := mends.entries component
  have hending : (script.cue component n).ending.Mends (script'.cue component n).ending := by
    have hentry := forall₂_getElem? hentries (min n ((script.entries component).length - 1))
    unfold Script.cue Script.entry?
    rw [← hentries.length_eq]
    generalize (script.entries component)[min n _]? = entry at hentry
    generalize (script'.entries component)[min n _]? = entry' at hentry
    cases hentry with
    | none => exact .same _
    | some h => exact h
  have hcue : script'.cue component n =
      { script.cue component n with ending := (script'.cue component n).ending } := by
    unfold Script.cue
    rw [mends.delay]
  rw [hcue]
  exact .waiting (script.delay component) hending

theorem start_mends {script script' : Script} (mends : script.Mends script') (s : Shared) (now : Float)
    (component : String) (capture : Bool) :
    (start script'.cue s now component capture).1 = (start script.cue s now component capture).1 ∧
      mendingBond.Next (start script.cue s now component capture).2.next
        (start script'.cue s now component capture).2.next := by
  have hmends := cue_mends mends component (s.count component)
  have hdelay : (script'.cue component (s.count component)).delay =
    (script.cue component (s.count component)).delay := mends.delay component
  unfold start
  dsimp only
  rw [hdelay]
  exact ⟨rfl, sleep_next hmends 0 _⟩

theorem resume_mends {v v' : Invocation} (h : Mends v v') (s : Shared) (wake : Wake) :
    (resume s v' wake).1 = (resume s v wake).1 ∧
      mendingBond.Next (resume s v wake).2.next (resume s v' wake).2.next := by
  obtain ⟨rung, interrupted⟩ := wake
  cases h with
  | waiting delay h =>
    cases interrupted with
    | false => exact ⟨rfl, .ends h⟩
    | true => exact ⟨rfl, .ends (.same _)⟩

end Rehearsal

open Rehearsal in
theorem Script.Mends.resembles {script script' : Script} (mends : script.Mends script')
    (policy : Policy) : Setup.Resembles mendingBond (script.setup policy) (script'.setup policy) where
  quiet := Script.setup_isQuiet script policy
  quiet' := Script.setup_isQuiet script' policy
  policy := rfl
  turns := Eq.refl 3
  same _ _ := rfl
  start {shared _} h now component := by
    obtain rfl : shared = _ := h
    obtain ⟨hshared, hnext⟩ :=
      start_mends mends shared now component policy.captureOutput
    refine ⟨hshared.symm, hnext, ?_, ?_⟩
    · exact (Runner.rehearsed_discreet _).start shared now component _
    · exact (Runner.rehearsed_discreet _).start shared now component _
  resume {shared _ v v'} h hv now wake := by
    obtain rfl : shared = _ := h
    obtain ⟨hshared, hnext⟩ := resume_mends hv shared wake
    refine ⟨hshared.symm, hnext, ?_, ?_⟩
    · exact (Runner.rehearsed_discreet _).resume shared now v wake
    · exact (Runner.rehearsed_discreet _).resume shared now v' wake
  judges h expired outstanding component :=
    (mendingBond_judges policy h expired outstanding component).imp_left fun h ↦ ⟨trivial, h⟩

namespace Run

variable {script script' : Script}

/-- A scripted run that is never cancelled, and in which attempts may end in interruptions of their
own, is torn down, or ends as if they had failed instead. -/
theorem execute_mended (policy : Policy) (mends : script.Mends script')
    (hdelay : ∀ c, (script.delay c).isNaN = false) {now : Float} (hnow : IsInstant now)
    (shared : Rehearsal.Shared) (components : List String) :
    let run (script : Script) := execute (script.setup policy) .never now shared components
    (run script).report = .error .interrupted ∨ (run script').report = (run script).report ∧
      (run script').shared = (run script).shared ∧
      (run script').journal.remarks = (run script).journal.remarks := by
  intro run
  have quiet := Script.setup_isQuiet script policy
  have hdone : (final (script.setup policy) .never now shared components).isDone = true :=
    final_isDone_of_restless quiet (Runner.rehearsed_frugal script.cue)
      (Runner.rehearsed_restless fun c n ↦ ⟨hdelay c, nofun⟩) hnow
      (fun _ hdelay ↦ absurd hdelay List.not_mem_nil) shared components
  obtain halike | ⟨-, hinterrupted⟩ :=
    final_alike (mends.resembles policy) (rfl : shared = shared) .never now components
  · obtain ⟨hreport, hreports, hremarks⟩ := ended_alike halike
    refine .inr ⟨?_, halike.shared.symm, hremarks⟩
    have houtcome (o o' : Outcome) (h : Rehearsal.mendingBond.Outcomes o o') : o = o' := by
      obtain ⟨_, rfl⟩ := h
      rfl
    change _ = (run script).report
    cases hrun : (run script).report with
    | error abort => exact (hreport abort).1 hrun
    | ok report =>
      cases hrun' : (run script').report with
      | error abort => cases hrun.symm.trans ((hreport abort).2 hrun')
      | ok report' =>
        have houtcomes := (hreports report report' hrun hrun').imp houtcome
        rw [List.forall₂_eq_eq_eq] at houtcomes
        obtain ⟨outcomes⟩ := report
        obtain ⟨_⟩ := report'
        obtain rfl : outcomes = _ := houtcomes
        rfl
  · exact .inl ((execute_interrupted_iff quiet now shared components hdone).2 hinterrupted)

/-- A component whose test interrupts itself costs the others their outcomes. -/
example :
    let script : Script := ⟨fun c ↦ if c = "alpha" then [.interrupted] else [], fun _ ↦ 0.0⟩
    (execute (script.setup {}) .never 0.0 {} ["alpha", "beta"]).report matches
      .error .interrupted := by
  decide +kernel

end Run

end Testbed

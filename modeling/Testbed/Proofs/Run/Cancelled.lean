import Testbed.Proofs.Run.Completeness
import Testbed.Proofs.Run.Comparison

/-!
# Cancelled runs

Until it is cancelled a run goes like the one that is not.  Then nothing is started any more and time
stands still, so that what had finished before keeps its outcome and the rest is skipped.
-/

namespace Testbed

open Run Clock

namespace Run

variable {p : Production} {lots : Nat → Lot} {s : ScriptState}

variable {due : Float}

/-! ## After the cancellation -/

/-- The run was cancelled, or will be before the coordinator has another turn. -/
def Doomed (s : ScriptState) : Prop :=
  s.cancelled = true ∨
    s.isDone = false ∧ ∃ pre post, s.queue = pre ++ .cancel :: post ∧ .coordinate ∉ pre

/-- A cancelled run starts nothing, and time stands still. -/
theorem Doomed.step (sound : p.Sound) (hcontrol : Control s) (hs : Play p lots s)
    (hdone : s.isDone = false) (h : Doomed s) :
    Play p lots (step p.setup s) ∧ Doomed (step p.setup s) ∧ (step p.setup s).now = s.now := by
  obtain hcancelled | ⟨-, pre, post, hqueue, hpre⟩ := h
  · obtain ⟨lots', hplay, honward⟩ := hs.step sound hcontrol hdone
    obtain rfl : lots' = lots := funext fun i ↦ (honward i).resolve_right (by simp [hcancelled])
    have hturns := (hs.turns_or_alarm sound hcontrol hdone).resolve_right (by simp [hcancelled])
    exact ⟨hplay, .inl (step_cancelled p.setup_isQuiet hcancelled),
      step_now_of_turns p.setup_isQuiet hturns⟩
  · have hnow : (Run.step p.setup s).now = s.now :=
      step_now_of_turns p.setup_isQuiet (by simp [State.turns, hqueue])
    cases pre with
    | nil =>
      rw [List.nil_append] at hqueue
      have hsilent := hs.step_silent sound hdone (by simp [hqueue])
      refine ⟨hsilent.1, .inl ?_, hnow⟩
      rw [Run.step, hqueue]
      simp only [handle, State.cancel]
      split
      · assumption
      · split <;> rfl
    | cons t pre =>
      rw [List.cons_append] at hqueue
      obtain ⟨hne, hpre⟩ := not_or.1 (List.mem_cons.not.1 hpre)
      have hsilent := hs.step_silent sound hdone (by simpa [hqueue] using Ne.symm hne)
      refine ⟨hsilent.1, .inr ⟨hsilent.2, pre, post, ?_, hpre⟩, hnow⟩
      rw [Run.step, hqueue]
      exact (handle_taken p.setup_isQuiet t _).queue

theorem Doomed.steps (sound : p.Sound) (hcontrol : Control s) (hs : Play p lots s) (h : Doomed s)
    (n : Nat) : Play p lots (steps p.setup n s) ∧ Doomed (steps p.setup n s) ∧
      (steps p.setup n s).now = s.now := by
  refine (steps_induction (P := fun t ↦ Control t ∧ Play p lots t ∧ Doomed t ∧ t.now = s.now)
    (fun t hdone h ↦ ?_) ⟨hcontrol, hs, h, rfl⟩ n).2
  obtain ⟨hcontrol, hplay, hdoomed, hnow⟩ := h
  obtain ⟨hplay', hdoomed', hnow'⟩ := hdoomed.step sound hcontrol hplay hdone
  exact ⟨hcontrol.step p.setup_isQuiet hdone, hplay', hdoomed', hnow'.trans hnow⟩

/-! ## Up to the cancellation -/

/-- The run as it is when it will be cancelled at an instant. -/
def State.cancelledAt (due : Float) (s : ScriptState) : ScriptState :=
  s.recast ⟨id, [due], []⟩

/-- A cancellation is still to come. -/
def Early (due : Float) (s : ScriptState) : Prop :=
  tick s.now ≤ tick due ∧ (tick s.now < tick due ∨ s.queue = [] ∧ .coordinate ∉ s.next)

/-- A cancellation comes with the next move of the clock. -/
structure Due (due : Float) (s : ScriptState) : Prop where
  ongoing : s.isDone = false
  now : tick s.now ≤ tick due
  queue : s.queue = []
  quiet : .coordinate ∉ s.next
  due : due ≤ s.nextInstant

theorem setup_recasts (p : Production) : p.setup.Recasts id p.setup where
  start _ _ _ _ := rfl
  resume _ _ _ _ := rfl
  timeout := rfl
  retries := rfl
  captureOutput := rfl
  parallelism := rfl
  quiet := p.setup_isQuiet
  quiet' := p.setup_isQuiet

theorem Early.step (sound : p.Sound) (hcontrol : Control s) (hs : Play p lots s)
    (hdone : s.isDone = false) (hinstant : IsInstant due) (h : Early due s) :
    Due due s ∨ Early due (step p.setup s) ∧
      Run.step p.setup (s.cancelledAt due) = (Run.step p.setup s).cancelledAt due := by
  obtain ⟨stand, hscene⟩ := hs.scene
  obtain ⟨hle, hlt⟩ := h
  by_cases hqueue : s.queue = []
  · have hprogress : s.next ≠ [] ∨ ∃ t ∈ s.timers, IsInstant t.due := by
      refine (hs.turns_or_alarm sound hcontrol hdone).imp (fun h ↦ ?_) And.right
      simpa [State.turns, hqueue] using h
    have hclock := nextInstant_recast hscene.now hscene.dated hinstant hle hprogress
    by_cases hdue : due ≤ s.nextInstant
    · refine .inl ⟨hdone, hle, hqueue, ?_, hdue⟩
      obtain hlt | ⟨-, hquiet⟩ := hlt
      · by_cases hnext : s.next = []
        · simp [hnext]
        · rw [State.nextInstant, if_neg (by simpa using hnext), le_iff_tick hinstant hscene.now] at hdue
          omega
      · exact hquiet
    · rw [if_neg hdue] at hclock
      refine .inr ⟨?_, step_recast (setup_recasts p) (fun _ ↦ rfl) fun _ ↦ ⟨hclock, by simpa using hdue⟩⟩
      have hnow : (Run.step p.setup s).now = s.nextInstant := by
        rw [Run.step, hqueue]
        rfl
      rw [le_iff_tick hinstant (nextInstant_ticks hscene.now hscene.dated).instant', ← hnow] at hdue
      exact ⟨by omega, .inl (by omega)⟩
  · have hlt := hlt.resolve_right fun h ↦ hqueue h.1
    have hnow : (Run.step p.setup s).now = s.now :=
      step_now_of_turns p.setup_isQuiet (by simp [State.turns, hqueue])
    refine .inr ⟨?_, step_recast (setup_recasts p) (fun _ ↦ rfl) fun h ↦ absurd h hqueue⟩
    rw [Early, hnow]
    exact ⟨hle, .inl hlt⟩

/-- A run that will be cancelled goes like the one that will not, up to the cancellation. -/
theorem Early.steps (sound : p.Sound) (hcontrol : Control s) (hs : Play p lots s)
    (hinstant : IsInstant due) (h : Early due s) (n : Nat) :
    (tick (steps p.setup n s).now ≤ tick due ∧
        Run.steps p.setup n (s.cancelledAt due) = (Run.steps p.setup n s).cancelledAt due) ∨
      ∃ m < n, Due due (Run.steps p.setup m s) ∧
        Run.steps p.setup m (s.cancelledAt due) = (Run.steps p.setup m s).cancelledAt due := by
  induction n generalizing s lots with
  | zero => exact .inl ⟨h.1, rfl⟩
  | succ n ih =>
    cases hdone : s.isDone with
    | true =>
      have hdone' : (s.cancelledAt due).isDone = true := hdone
      rw [steps_of_isDone hdone, steps_of_isDone hdone']
      exact .inl ⟨h.1, rfl⟩
    | false =>
      have hdone' : (s.cancelledAt due).isDone = false := hdone
      obtain hdue | ⟨hearly, hstep⟩ := h.step sound hcontrol hs hdone hinstant
      · exact .inr ⟨0, Nat.succ_pos n, hdue, rfl⟩
      · obtain ⟨lots', hplay, -⟩ := hs.step sound hcontrol hdone
        rw [steps_succ hdone, steps_succ hdone', hstep]
        refine (ih (hcontrol.step p.setup_isQuiet hdone) hplay hearly).imp_right ?_
        rintro ⟨m, hm, hdue, hsteps⟩
        refine ⟨m + 1, Nat.succ_lt_succ hm, ?_, ?_⟩
        · rwa [steps_succ hdone]
        · rwa [steps_succ hdone, steps_succ hdone', hstep]

/-- The cancellation comes. -/
theorem Due.advance (hnow : IsInstant s.now) (hdated : Dated s.timers)
    (hinstant : IsInstant due) (hprogress : s.next ≠ [] ∨ ∃ t ∈ s.timers, IsInstant t.due)
    (h : Due due s) : (s.cancelledAt due).advance.now = due ∧ Doomed (s.cancelledAt due).advance := by
  have hclock : (s.cancelledAt due).nextInstant = due := by
    rw [State.cancelledAt, nextInstant_recast hnow hdated hinstant h.now hprogress, if_pos h.due]
  have htimers : (s.cancelledAt due).timers = ⟨due, .cancel⟩ :: s.timers := rfl
  have hdue : due ≤ due := (le_iff_tick hinstant hinstant).2 le_rfl
  have hqueue : ∃ post, (s.cancelledAt due).advance.queue = s.next ++ .cancel :: post := by
    simp only [State.advance, hclock, htimers, List.partition_eq_filter_filter]
    rw [List.filter_cons_of_pos (by simpa using hdue), List.map_cons]
    exact ⟨_, rfl⟩
  obtain ⟨post, hqueue⟩ := hqueue
  exact ⟨hclock, .inr ⟨h.ongoing, s.next, post, hqueue, h.quiet⟩⟩

theorem Due.step (h : Due due s) : step p.setup s = s.advance ∧
    step p.setup (s.cancelledAt due) = (s.cancelledAt due).advance := by
  have hqueue : (s.cancelledAt due).queue = [] := h.queue
  rw [Run.step, Run.step, h.queue, hqueue]
  exact ⟨rfl, rfl⟩

/-- The run that is cancelled does not go on any more. -/
theorem Due.cut (sound : p.Sound) (hs : Going p lots s) (h : Due due s) (hinstant : IsInstant due)
    (hcontrol : Control (s.cancelledAt due)) (hs' : Play p lots (s.cancelledAt due))
    (hprogress : s.next ≠ [] ∨ ∃ t ∈ s.timers, IsInstant t.due) (n : Nat) :
    Play p lots (steps p.setup (n + 1) (s.cancelledAt due)) ∧
      (steps p.setup (n + 1) (s.cancelledAt due)).now = due ∧
        ∃ new, (steps p.setup (n + 1) (s.cancelledAt due)).journal = new ++ s.journal := by
  have hdone : (s.cancelledAt due).isDone = false := h.ongoing
  obtain ⟨hnow, hdoomed⟩ := h.advance hs.now hs.dated hinstant hprogress
  have hplay := hs'.advance sound h.queue hdone
  have hcontrol' := hcontrol.step p.setup_isQuiet hdone
  rw [h.step.2] at hcontrol'
  rw [steps_succ hdone, h.step.2]
  obtain ⟨hplay', -, hnow'⟩ := hdoomed.steps sound hcontrol' hplay n
  refine ⟨hplay', hnow'.trans hnow, ?_⟩
  obtain ⟨new, hnew⟩ := steps_journal p.setup_isQuiet n (s.cancelledAt due).advance
  refine ⟨new, hnew.trans ?_⟩
  exact congrArg (new ++ ·) (List.append_nil s.journal)

/-- The run that is not cancelled starts nothing more before the cancellation. -/
theorem Due.whole (sound : p.Sound) (hcontrol : Control s) (hs : Play p lots s) (h : Due due s)
    (n : Nat) : ∃ lots', Play p lots' (steps p.setup (n + 1) s) ∧ Henceforth s.advance lots lots' := by
  have hcontrol' := hcontrol.step p.setup_isQuiet h.ongoing
  rw [(h.step (p := p)).1] at hcontrol'
  rw [steps_succ h.ongoing, h.step.1]
  exact (hs.advance sound h.queue h.ongoing).steps sound hcontrol' n

/-! ## What the cancellation leaves -/

/-- What a cancellation at an instant makes of an outcome of work that finished at another one. -/
def Cut (due finish : Float) (o o' : Outcome) : Prop :=
  finish < due ∧ o' = o ∨ finish = due ∧ (o' = o ∨ o'.status = .skipped) ∨
    due < finish ∧ o'.status = .skipped

variable {lots' : Nat → Lot} {whole cut : ScriptState} {i : Nat} {c : String}
  {o o' : Outcome}

/-- Work that finished stays finished. -/
theorem finishes_of_journal {s' : ScriptState} (h : ∃ new, s'.journal = new ++ s.journal)
    (hfinishes : (s'.view i c).finishes = []) : (s.view i c).finishes = [] := by
  obtain ⟨new, hnew⟩ := h
  rw [View.finishes, State.view, hnew, Journal.events, List.filterMap_append, List.filter_append,
    List.filterMap_append] at hfinishes
  exact (List.append_eq_nil_iff.1 hfinishes).2

/-- Work that is not told to have finished when a cancellation comes would not finish before. -/
theorem Due.not_past (sound : p.Sound) (hs : Going p lots s) (h : Due due s)
    (hinstant : IsInstant due) (hc : p.components[i]? = some c) {τ : Float}
    (hlot : lots i = .started τ) (hfinishes : (s.view i c).finishes = []) :
    tick due ≤ tick ((p.role c).course τ).1 := by
  by_contra hlt
  have hticks := nextInstant_ticks hs.now hs.dated
  have hstand : OnCourse (p.role c) i τ (s.view i c) := by
    have hstand := hs.standing i c hc
    rwa [hlot] at hstand
  have hcourse := hstand.advance sound.orderly (by simp [State.view, h.queue])
    (State.view_ticks hticks i c)
  have hdue := (le_iff_tick hinstant hticks.instant').1 h.due
  have htold := hcourse.told_of_past sound.orderly hticks.instant' (by
    change _ < tick s.nextInstant
    omega)
  have hfinished : (s.view i c).finishes = [((p.role c).course τ).1] := congrArg Prod.snd htold
  rw [hfinishes] at hfinished
  cases hfinished

/-- A run that ends before it is cancelled. -/
theorem Closed.fates (sound : p.Sound) (hwhole : Closed p lots' whole)
    (hnever : whole.cancelled = false) (hinstant : IsInstant due) (hle : tick whole.now ≤ tick due)
    (hc : p.components[i]? = some c) (ho : whole.report.outcomes[i]? = some o) :
    (lots' i = .untouched → o.status = .skipped) ∧
      ∀ τ, lots' i = .started τ → ∃ t, whole.ended.finishes c = [t] ∧ Cut due t o o := by
  refine ⟨fun huntouched ↦ ?_, fun τ hlot ↦ ?_⟩
  · rw [hwhole.skipped_of_untouched hc ho huntouched]
    rfl
  · have hcourse := Role.isInstant_course (r := p.role c) (sound.orderly.delay c) (hwhole.since i τ hlot).1
    obtain ⟨-, hpast, -, hfinishes⟩ := hwhole.finished hnever hc ho hlot
    refine ⟨_, hfinishes, ?_⟩
    rw [Cut, lt_iff_tick hcourse.1 hinstant]
    obtain heq | hlt := Nat.eq_or_lt_of_le (hpast.trans hle)
    · exact .inr (.inl ⟨tick_injective heq, .inl rfl⟩)
    · exact .inl ⟨hlt, rfl⟩

theorem Due.fates (sound : p.Sound) (hs : Going p lots s) (h : Due due s) (hinstant : IsInstant due)
    (hwhole : Closed p lots' whole) (hnever : whole.cancelled = false)
    (hhence : Henceforth s.advance lots lots') (hcut : Closed p lots cut) (hnow : cut.now = due)
    (hjournal : ∃ new, cut.journal = new ++ s.journal) (hc : p.components[i]? = some c)
    (ho : whole.report.outcomes[i]? = some o) (ho' : cut.report.outcomes[i]? = some o') :
    (lots' i = .untouched → o'.status = .skipped) ∧
      ∀ τ, lots' i = .started τ → ∃ t, whole.ended.finishes c = [t] ∧ Cut due t o o' := by
  have hfate' := hcut.fate hc ho'
  have hskipped (huntouched : lots i = .untouched) : o'.status = .skipped := by
    rw [hcut.skipped_of_untouched hc ho' huntouched]
    rfl
  refine ⟨fun huntouched ↦ hskipped ?_, fun τ hlot' ↦ ?_⟩
  · obtain h | ⟨h, -⟩ := hhence i
    · rw [← h, huntouched]
    · exact h
  · have hcourse := Role.isInstant_course (r := p.role c) (sound.orderly.delay c) (hwhole.since i τ hlot').1
    obtain ⟨houtcome, -, -, hfinishes⟩ := hwhole.finished hnever hc ho hlot'
    refine ⟨_, hfinishes, ?_⟩
    rw [Cut, lt_iff_tick hcourse.1 hinstant, lt_iff_tick hinstant hcourse.1]
    -- what is skipped did not finish before
    have hlater (hle : tick due ≤ tick ((p.role c).course τ).1) (hskip : o'.status = .skipped) :
        ((p.role c).course τ).1 = due ∧ o'.status = .skipped ∨
          tick due < tick ((p.role c).course τ).1 ∧ o'.status = .skipped := by
      obtain heq | hlt := Nat.eq_or_lt_of_le hle
      · exact .inl ⟨tick_injective heq.symm, hskip⟩
      · exact .inr ⟨hlt, hskip⟩
    obtain hlot | ⟨huntouched, -, τ', hlot, hle⟩ := hhence i
    · rw [hlot'] at hlot
      rw [← hlot] at hfate'
      cases hfate' with
      | course course past =>
        obtain rfl : o' = o := by
          cases course.symm.trans houtcome
          rfl
        rw [show (cut.view i c).now = due from hnow] at past
        obtain heq | hlt := Nat.eq_or_lt_of_le past
        · exact .inr (.inl ⟨tick_injective heq, .inl rfl⟩)
        · exact .inl ⟨hlt, rfl⟩
      | interrupted hcancelled calls finishes =>
        have hle := h.not_past sound hs hinstant hc hlot.symm (finishes_of_journal hjournal finishes)
        exact .inr ((hlater hle rfl).imp_left fun h ↦ ⟨h.1, .inr h.2⟩)
    · obtain rfl : τ' = τ := by
        rw [hlot] at hlot'
        cases hlot'
        rfl
      have hadvance : tick due ≤ tick s.advance.now :=
        (le_iff_tick hinstant (nextInstant_ticks hs.now hs.dated).instant').1 h.due
      have hle := hadvance.trans (hle.trans hcourse.2)
      exact .inr ((hlater hle (hskipped huntouched)).imp_left fun h ↦ ⟨h.1, .inr h.2⟩)

/-- What a cancellation at an instant leaves of a run, in comparison with the whole run. -/
structure CutShort (p : Production) (lots : Nat → Lot) (due : Float) (whole cut : ScriptState) : Prop where
  closed : Closed p lots whole
  fates : ∀ (i : Nat) (c : String) (o o' : Outcome), p.components[i]? = some c →
    whole.report.outcomes[i]? = some o → cut.report.outcomes[i]? = some o' →
      (lots i = .untouched → o'.status = .skipped) ∧
        ∀ τ, lots i = .started τ → ∃ t, whole.ended.finishes c = [t] ∧ Cut due t o o'
  now : ¬ whole.now < due → cut.now = due

/-- A run that is over by the instant is left as it is. -/
theorem Closed.cutShort (sound : p.Sound) (hwhole : Closed p lots whole)
    (hnever : whole.cancelled = false) (hinstant : IsInstant due) (hle : tick whole.now ≤ tick due) :
    CutShort p lots due whole (whole.cancelledAt due) where
  closed := hwhole
  fates i c o o' hc ho ho' := by
    rw [State.cancelledAt, State.recast_report] at ho'
    obtain rfl : o = o' := Option.some_inj.1 (ho.symm.trans ho')
    exact hwhole.fates sound hnever hinstant hle hc ho
  now hlt := by
    rw [lt_iff_tick hwhole.now hinstant] at hlt
    exact tick_injective (hle.antisymm (Nat.not_lt.1 hlt))

/-- A run that is still going on is cut off at the instant. -/
theorem Due.cutShort (sound : p.Sound) (hs : Play p lots s) (hcontrol : Control s)
    (hs' : Play p lots' (s.cancelledAt due)) (hcontrol' : Control (s.cancelledAt due))
    (hcancelled : s.cancelled = false) (h : Due due s) (hinstant : IsInstant due) {n : Nat}
    (hwhole : steps p.setup (n + 1) s = whole) (hdone : whole.isDone = true)
    (hnever : whole.cancelled = false) (hcut : steps p.setup (n + 1) (s.cancelledAt due) = cut)
    (hdone' : cut.isDone = true) : ∃ lots, CutShort p lots due whole cut := by
  have hgoing := (hs.waiting hcancelled h.ongoing).1
  have hgoing' : Going p lots' (s.cancelledAt due) := (hs'.waiting hcancelled h.ongoing).1
  obtain rfl : lots' = lots := funext (hgoing.lot_congr hgoing' rfl (view_recast [due] rfl))
  have hprogress : s.next ≠ [] ∨ ∃ t ∈ s.timers, IsInstant t.due := by
    refine (hs.turns_or_alarm sound hcontrol h.ongoing).imp (fun h' ↦ ?_) And.right
    simpa [State.turns, h.queue] using h'
  obtain ⟨lots, hwholePlay, hhence⟩ := h.whole sound hcontrol hs n
  obtain ⟨hcutPlay, hcutNow, hjournal⟩ := h.cut sound hgoing hinstant hcontrol' hs' hprogress n
  rw [hwhole] at hwholePlay
  rw [hcut] at hcutPlay hcutNow hjournal
  have hclosed := (hwholePlay.closed hdone).1
  exact ⟨lots, hclosed, fun i c o o' ↦ h.fates sound hgoing hinstant hclosed hnever hhence
    (hcutPlay.closed hdone').1 hcutNow hjournal, fun _ ↦ hcutNow⟩

/-! ## Whole runs -/

variable {now T : Float} {shared : Rehearsal.Shared}

theorem begin_cancelledAt (p : Production) (now T : Float) (shared : Rehearsal.Shared) :
    begin p.setup (.after [T]) now shared p.components =
      (begin p.setup .never now shared p.components).cancelledAt (now + T) :=
  fill_recast (r := ⟨id, [now + T], []⟩) (setup_recasts p)
    (.opening p.setup .never now shared p.components)

theorem begin_early (p : Production) (shared : Rehearsal.Shared) (hnow : IsInstant now) (hT : 0 ≤ T) :
    Early (now + T) (begin p.setup .never now shared p.components) := by
  have hfill := Coordinated.fill p.setup_isQuiet (.opening p.setup .never now shared p.components)
  have hfilled : .coordinate ∉
      ((State.opening p.setup .never now shared p.components).filled p.setup).next := by
    rw [State.filled]
    split
    · simp [State.opening]
    · rw [launch_eq]
      simp [State.opening]
  have hnext : .coordinate ∉ (begin p.setup .never now shared p.components).next := by
    rw [begin_eq, fill_eq]
    split
    · obtain ⟨new, heq, -⟩ := complete_eq p.setup_isQuiet
        ((State.opening p.setup .never now shared p.components).filled p.setup)
      rw [heq]
      exact hfilled
    · exact hfilled
  refine ⟨?_, .inr ⟨hfill.queue, hnext⟩⟩
  rw [begin_eq, hfill.now]
  exact (isInstant_add hnow hT).2

/-- The run that is cancelled at an instant, in comparison with the run that is not. -/
theorem final_cutShort (sound : p.Sound) (hearlier : ∀ c, p.earlier c = shared.count c)
    (hnow : IsInstant now) (hT : 0 ≤ T) :
    ∃ lots, CutShort p lots (now + T) (final p.setup .never now shared p.components)
      (final p.setup (.after [T]) now shared p.components) := by
  have hinstant := (isInstant_add hnow hT).1
  have hdelays : ∀ delay ∈ (Cancellation.after [T]).delays, 0 ≤ delay := by
    simpa [Cancellation.delays] using hT
  have hdelays₀ : ∀ delay ∈ Cancellation.never.delays, 0 ≤ delay := by simp [Cancellation.delays]
  have hplay := steps_play sound hearlier hnow hdelays₀
  have hplay' := steps_play sound hearlier hnow hdelays
  have hnever := steps_never p.setup_isQuiet now shared p.components
  have hdone := final_isDone sound hearlier hnow hdelays₀
  have hdone' := final_isDone sound hearlier hnow hdelays
  obtain ⟨n, hwhole, hcut⟩ := exists_steps_eq_final hdone hdone'
  obtain ⟨_, hplay₀⟩ := begin_play sound hearlier hnow hdelays₀
  obtain ⟨hle, hsteps⟩ | ⟨m, hm, hdue, hsteps⟩ := (begin_early p shared hnow hT).steps sound
    (.begin p.setup_isQuiet _ _ _ _) hplay₀ hinstant n
  · obtain ⟨lots, hplay, -⟩ := hplay n
    rw [hwhole] at hplay hle
    rw [← begin_cancelledAt, hcut, hwhole] at hsteps
    rw [hsteps]
    exact ⟨lots, (hplay.closed hdone).1.cutShort sound (final_never p.setup_isQuiet _ _ _) hinstant hle⟩
  · obtain ⟨k, rfl⟩ := Nat.exists_eq_add_of_lt hm
    obtain ⟨lots, hplay, hcontrol⟩ := hplay m
    obtain ⟨lots', hplay', hcontrol'⟩ := hplay' m
    rw [Nat.add_assoc, steps_add] at hwhole hcut
    rw [begin_cancelledAt] at hplay' hcontrol' hcut
    rw [hsteps] at hplay' hcontrol' hcut
    exact hdue.cutShort sound hplay hcontrol hplay' hcontrol' (hnever m) hinstant hwhole hdone
      (final_never p.setup_isQuiet _ _ _) hcut hdone'

section Execution

variable {registry : Registry} {components : List String} {script : Script} {policy : Policy}

/-- Cancelling a run cuts it short and changes nothing else: what had finished before has the same
outcome, what would have finished later or not at all is skipped, and the run is over at once. -/
theorem execute_cancelled_truncates (hlist : registry.list = .ok components)
    (hparallelism : 1 ≤ policy.parallelism) (orderly : script.Orderly) (hnow : IsInstant now)
    (hT : 0 ≤ T) :
    let whole := execute (script.setup policy) .never now shared components
    let cut := execute (script.setup policy) (.after [T]) now shared components
    ∃ report report' : Report, whole.report = .ok report ∧ cut.report = .ok report' ∧
      report.outcomes.map (·.component) = components ∧
      report'.outcomes.map (·.component) = components ∧
      (∀ (i : Nat) (o o' : Outcome), report.outcomes[i]? = some o → report'.outcomes[i]? = some o' →
        (¬ whole.Called shared o.component → o'.status = .skipped) ∧
        (whole.Called shared o.component → ∃ t, whole.finishes o.component = [t] ∧
          (t < now + T ∧ o' = o ∨ t = now + T ∧ (o' = o ∨ o'.status = .skipped) ∨
            now + T < t ∧ o'.status = .skipped))) ∧
      (¬ whole.now < now + T → cut.now = now + T) := by
  have sound := Production.sound_of shared hlist orderly hparallelism
  have hdelays : ∀ delay ∈ Cancellation.never.delays, 0 ≤ delay := by simp [Cancellation.delays]
  have hdelays' : ∀ delay ∈ (Cancellation.after [T]).delays, 0 ≤ delay := by
    simpa [Cancellation.delays] using hT
  obtain ⟨_, _, hreport⟩ := final_closed shared hlist hparallelism orderly hnow hdelays
  obtain ⟨_, hclosed', hreport'⟩ := final_closed shared hlist hparallelism orderly hnow hdelays'
  obtain ⟨lots, hclosed, hfates, hover⟩ := final_cutShort sound (fun _ ↦ rfl) hnow hT
  refine ⟨_, _, hreport, hreport', hclosed.outcomes_components sound, hclosed'.outcomes_components sound,
    fun i o o' ho ho' ↦ ?_, hover⟩
  obtain ⟨c, hc⟩ := hclosed.exists_component ho
  obtain ⟨huntouched, hstarted⟩ := hfates i c o o' hc ho ho'
  have hcalled := hclosed.called_iff (fun _ ↦ rfl) hc
  rw [(hclosed.fate hc ho).component orderly]
  refine ⟨fun h ↦ huntouched (not_not.1 fun hlot ↦ h (hcalled.2 hlot)), fun h ↦ ?_⟩
  cases hlot : lots i with
  | untouched => exact absurd hlot (hcalled.1 h)
  | started τ => exact hstarted τ hlot

theorem execute_cancelled_truncates_failing :
    (⟨["alpha", "beta", "gamma"]⟩ : Registry).list = .ok ["alpha", "beta", "gamma"] ∧
      ¬ (execute (Script.failing.setup { parallelism := 2 }) .never 0.0 {}
        ["alpha", "beta", "gamma"]).now < 0.0 + 1.5 ∧
      (execute (Script.failing.setup { parallelism := 2 }) (.after [1.5]) 0.0 {}
        ["alpha", "beta", "gamma"]).now = 0.0 + 1.5 :=
  have hlist : (⟨["alpha", "beta", "gamma"]⟩ : Registry).list = .ok ["alpha", "beta", "gamma"] := by
    decide +kernel
  have hlate : ¬ (execute (Script.failing.setup { parallelism := 2 }) .never 0.0 {}
      ["alpha", "beta", "gamma"]).now < 0.0 + 1.5 := by decide +kernel
  have ⟨_, _, _, _, _, _, _, hnow⟩ := execute_cancelled_truncates hlist (by decide) Script.failing_orderly
    (by decide +kernel) (by decide +kernel)
  ⟨hlist, hlate, hnow hlate⟩

end Execution

end Run

end Testbed

import Testbed.Proofs.Run.Frame
import Testbed.Proofs.Run.Play
import Testbed.Proofs.Run.Potential

/-!
# Whole runs

The turns that are granted to a run are enough for it if any number of turns is.  A scripted run is a
play from its beginning to its end, and it comes to its end within these turns.
-/

namespace Testbed

/-- How often a rehearsed invocation may still wait. -/
def Rehearsal.budget : Rehearsal.Invocation → Nat
  | .waiting _ => 1
  | .leaving _ => 0

theorem Rehearsal.sleep_affords (alarm : Nat) (delay : Float) (invocation : Rehearsal.Invocation)
    {means : Nat} (h : budget invocation + 1 ≤ means) :
    Reply.Affords budget means { next := sleep alarm delay invocation } := by
  unfold sleep
  split <;> exact h

theorem Runner.rehearsed_frugal (cue : String → Nat → Cue) :
    (Runner.rehearsed cue).Frugal Rehearsal.budget where
  start _ _ _ _ := Rehearsal.sleep_affords _ _ _ (Nat.le_succ 2)
  resume shared now invocation wake := by
    change (Rehearsal.resume shared invocation wake).2.Affords _ _
    unfold Rehearsal.resume
    split
    · trivial
    · split
      · trivial
      · split
        · trivial
        · exact Rehearsal.sleep_affords _ _ _ le_rfl
    · trivial
    · trivial

namespace Run

open Clock

/-! ## Steps -/

section Steps

variable {σ ι : Type} {setup : Setup σ ι} {s : State σ ι}

theorem steps_of_isDone (h : s.isDone = true) (n : Nat) : steps setup n s = s := by
  cases n with
  | zero => rfl
  | succ n => rw [steps, if_pos h]

theorem steps_succ (h : s.isDone = false) (n : Nat) :
    steps setup (n + 1) s = steps setup n (step setup s) := by
  rw [steps, if_neg (by simp [h])]

theorem steps_add (m n : Nat) (s : State σ ι) :
    steps setup (m + n) s = steps setup n (steps setup m s) := by
  induction m generalizing s with
  | zero => rw [Nat.zero_add]; rfl
  | succ m ih =>
    cases h : s.isDone with
    | false => rw [Nat.succ_add, steps_succ h, steps_succ h, ih]
    | true => rw [steps_of_isDone h, steps_of_isDone h, steps_of_isDone h]

/-- Further turns make no difference to a run that is over in its turns. -/
theorem steps_eq_final {cancellation : Cancellation} {now : Float} {shared : σ}
    {components : List String} {n : Nat}
    (hdone : (final setup cancellation now shared components).isDone = true)
    (hn : turnBound setup cancellation components ≤ n) :
    steps setup n (begin setup cancellation now shared components) =
      final setup cancellation now shared components := by
  obtain ⟨k, rfl⟩ := Nat.exists_eq_add_of_le hn
  rw [steps_add]
  exact steps_of_isDone hdone k

/-- Two runs that come to an end are over after as many turns. -/
theorem exists_steps_eq_final {setup' : Setup σ ι} {cancellation cancellation' : Cancellation}
    {now : Float} {shared : σ} {components : List String}
    (hdone : (final setup cancellation now shared components).isDone = true)
    (hdone' : (final setup' cancellation' now shared components).isDone = true) :
    ∃ n, steps setup n (begin setup cancellation now shared components) =
        final setup cancellation now shared components ∧
      steps setup' n (begin setup' cancellation' now shared components) =
        final setup' cancellation' now shared components :=
  ⟨turnBound setup cancellation components + turnBound setup' cancellation' components,
    steps_eq_final hdone (Nat.le_add_right _ _), steps_eq_final hdone' (Nat.le_add_left _ _)⟩

/-- A run ends as it goes on from any of its states. -/
theorem final_eq_steps {cancellation : Cancellation} {now : Float} {shared : σ}
    {components : List String}
    (hdone : (final setup cancellation now shared components).isDone = true) (n : Nat) :
    final setup cancellation now shared components =
      steps setup (turnBound setup cancellation components)
        (steps setup n (begin setup cancellation now shared components)) := by
  rw [← steps_add, steps_eq_final hdone (Nat.le_add_left _ n)]

theorem steps_journal (quiet : setup.IsQuiet) (n : Nat) (s : State σ ι) :
    ∃ new, (steps setup n s).journal = new ++ s.journal := by
  refine steps_induction (P := fun t ↦ ∃ new, t.journal = new ++ s.journal) (fun t _ h ↦ ?_)
    ⟨[], rfl⟩ n
  obtain ⟨new, hnew⟩ := h
  obtain ⟨new', hnew'⟩ := step_journal quiet t
  exact ⟨new' ++ new, by rw [hnew', hnew, List.append_assoc]⟩

theorem Undisturbable.steps (quiet : setup.IsQuiet) (hs : Undisturbable s) (n : Nat) :
    Undisturbable (steps setup n s) :=
  steps_induction (fun _ _ hs ↦ hs.step quiet) hs n

theorem steps_of_not_lively (h : ¬ s.IsLively) (n : Nat) : steps setup n s = s := by
  induction n with
  | zero => rfl
  | succ n ih =>
    rw [steps, step_of_not_lively h, ih]
    exact ite_self s

/-- A run that ends does so before its potential is used up. -/
theorem isDone_steps {budget : ι → Nat} (quiet : setup.IsQuiet) (frugal : setup.runner.Frugal budget)
    (hcontrol : Control s) {m n : Nat} (hm : s.potential setup budget ≤ m)
    (hn : (steps setup n s).isDone = true) : (steps setup m s).isDone = true := by
  induction m generalizing s n with
  | zero =>
    by_contra hdone
    have hlively : s.IsLively := by
      by_contra h
      exact hdone (by rwa [steps_of_not_lively h] at hn)
    have := potential_step quiet frugal hcontrol (by simpa [steps] using hdone) hlively
    omega
  | succ m ih =>
    cases hdone : s.isDone with
    | true => rwa [steps_of_isDone hdone]
    | false =>
      have hlively : s.IsLively := by
        by_contra h
        rw [steps_of_not_lively h, hdone] at hn
        cases hn
      have hlt := potential_step quiet frugal hcontrol hdone hlively
      rw [steps_succ hdone]
      refine ih (n := n - 1) (hcontrol.step quiet hdone) (by omega) ?_
      cases n with
      | zero => rw [steps, hdone] at hn; cases hn
      | succ n => rwa [steps_succ hdone] at hn

/-- A run that keeps being lively ends when its potential is used up. -/
theorem isDone_of_lively {budget : ι → Nat} (quiet : setup.IsQuiet)
    (frugal : setup.runner.Frugal budget) {P : State σ ι → Prop}
    (hlively : ∀ s, Control s → P s → s.isDone = false → s.IsLively)
    (hstep : ∀ s, Control s → P s → s.isDone = false → P (step setup s)) (hcontrol : Control s)
    (hs : P s) {n : Nat} (hn : s.potential setup budget ≤ n) : (steps setup n s).isDone = true := by
  have hlower {s : State σ ι} (hcontrol : Control s) (hs : P s) (hdone : s.isDone = false) :=
    potential_step quiet frugal hcontrol hdone (hlively s hcontrol hs hdone)
  induction n generalizing s with
  | zero =>
    by_contra hdone
    have := hlower hcontrol hs (by simpa [steps] using hdone)
    omega
  | succ n ih =>
    rw [steps]
    split
    · assumption
    · next hdone =>
      rw [Bool.not_eq_true] at hdone
      have := hlower hcontrol hs hdone
      exact ih (hcontrol.step quiet hdone) (hstep s hcontrol hs hdone) (by omega)

end Steps

/-! ## The turns that are granted to a run -/

section Granted

variable {σ ι : Type} {setup : Setup σ ι} {budget : ι → Nat} {cancellation : Cancellation}
  {now : Float} {shared : σ} {components : List String}

theorem potential_begin (budget : ι → Nat) (quiet : setup.IsQuiet) :
    (begin setup cancellation now shared components).potential setup budget ≤
      turnBound setup cancellation components := by
  have hfill := potential_fill budget quiet (State.opening setup cancellation now shared components)
  have hcancel := cancelWeight_le (State.opening setup cancellation now shared components).cancelled
  have hleft : attemptsLeft setup.policy 1 = setup.policy.retries.toNat := by
    simp [attemptsLeft]
  have hplaces : (State.opening setup cancellation now shared components).places =
      components.map fun c ↦ { component := c } := rfl
  have htimers : (State.opening setup cancellation now shared components).timers =
      cancellation.delays.map fun delay ↦ ⟨now + delay, .cancel⟩ := rfl
  have hopening : (State.opening setup cancellation now shared components).potential setup budget ≤
      components.length * ((setup.policy.retries.toNat + 1) * setup.attemptCost + 8) +
        2 * cancellation.delays.length + 2 * components.length + 12 := by
    rw [State.potential, hplaces, htimers, List.map_map, List.map_map, List.length_map]
    simp only [Function.comp_def, Slot.weight, hleft, Turn.cost_cancel, List.map_const',
      List.sum_replicate, smul_eq_mul]
    change 0 + 4 + _ + _ + (2 * components.length + 4) + _ ≤ _
    omega
  rw [← begin_eq, hplaces, List.length_map] at hfill
  change _ + (2 * components.length + 4) ≤ _ at hfill
  rw [Setup.attemptCost] at hopening
  have hattempts : (setup.policy.retries.toNat + 1) * (4 * setup.runner.turns + 4) + 10 ≤
      (setup.policy.retries.toNat + 3) * (setup.runner.turns + 8) * 8 := by
    nlinarith [Nat.zero_le (setup.policy.retries.toNat * setup.runner.turns)]
  have hcomponents := Nat.mul_le_mul_left components.length hattempts
  have hbound : turnBound setup cancellation components = (components.length + 2) *
      ((setup.policy.retries.toNat + 3) * (setup.runner.turns + 8) * 8) +
        cancellation.delays.length * 4 := by
    rw [turnBound]
    ring
  rw [hbound, Nat.add_mul]
  rw [Nat.mul_add] at hcomponents hopening
  omega

/-- The turns that are granted to a run are enough if any number of turns is. -/
theorem final_isDone_iff (quiet : setup.IsQuiet) (frugal : setup.runner.Frugal budget) :
    (final setup cancellation now shared components).isDone = true ↔
      ∃ n, (steps setup n (begin setup cancellation now shared components)).isDone = true :=
  ⟨fun h ↦ ⟨_, h⟩, fun ⟨_, hn⟩ ↦
    isDone_steps quiet frugal (.begin quiet _ _ _ _) (potential_begin budget quiet) hn⟩

end Granted

/-! ## Plays -/

variable {p : Production} {lots : Nat → Lot} {s : ScriptState}

theorem view_of_no_turns (hturns : s.turns = []) (i : Nat) (c : String) :
    (s.view i c).queue = [] ∧ (s.view i c).next = [] := by
  obtain ⟨hqueue, hnext⟩ := List.append_eq_nil_iff.1 hturns
  simp [State.view, hqueue, hnext]

/-- If there is nothing to do while the coordinator waits, then nothing has ended, so that the alarm of
some attempt is still to come. -/
theorem Going.exists_alarm (sound : p.Sound) (hs : Going p lots s) (hwaiting : Waiting s)
    (hturns : s.turns = []) : s.cancelled = false ∧ ∃ t ∈ s.timers, IsInstant t.due := by
  constructor
  · by_contra hcancelled
    have hturn := hwaiting.cancelled (by simpa using hcancelled)
    simp [hturns] at hturn
  · obtain ⟨i, hi⟩ := hwaiting.running
    obtain ⟨slot, hslot, hrun⟩ := (Option.any_eq_true _ _).1 hi
    have hactive : slot.isActive = true := by
      rw [Slot.isRunning_eq, Bool.or_eq_true] at hrun
      refine hrun.resolve_right fun hf ↦ ?_
      obtain ⟨f, hf⟩ := Option.isSome_iff_exists.1 hf
      have hnotice := hwaiting.noticed i f (by rw [State.finish?, hslot]; exact hf)
      rw [hturns] at hnotice
      cases hnotice
    obtain ⟨c, hcomponent⟩ := hs.toScene.exists_component hslot
    obtain ⟨hqueue, hnext⟩ := view_of_no_turns hturns i c
    obtain ⟨t, ht, hdue⟩ := Standing.Running.exists_alarm (v := s.view i c) hslot hactive
      sound.orderly (hs.standing i c hcomponent) hqueue hnext
    exact ⟨t, (List.mem_filter.1 ht).1, hdue⟩

/-- The work that the coordinator waits for when it drains was interrupted and has its turn queued. -/
theorem Closing.turns_ne_nil (hs : Closing p lots s) {left : Nat} (hdraining : Draining left s) :
    s.turns ≠ [] := by
  intro hturns
  have hleft := hdraining.left_eq
  have hdue := hdraining.due
  rw [hturns] at hdue hleft
  have hpos : 0 < s.activeCount := by
    by_contra hzero
    rw [List.count_nil] at hleft
    rw [if_pos (by omega)] at hdue
    cases hdue
  obtain ⟨place, hplace, hactive⟩ := List.countP_pos_iff.1 hpos
  obtain ⟨i, hi⟩ := List.mem_iff_getElem?.1 hplace
  have hslot : (s.view i place.component).slot = some place.slot := by
    simp [State.view, State.slot?, hi]
  have hturn := Standing.Draining.exists_turn hslot hactive
    (hs.standing i _ (hs.toScene.of_place hi))
  obtain ⟨hqueue, hnext⟩ := view_of_no_turns hturns i place.component
  rw [hqueue, hnext] at hturn
  cases hturn

/-- A run that is not over has something to do, now or later. -/
theorem Play.turns_or_alarm (sound : p.Sound) (hcontrol : Control s) (hs : Play p lots s)
    (hdone : s.isDone = false) :
    s.turns ≠ [] ∨ s.cancelled = false ∧ ∃ t ∈ s.timers, IsInstant t.due := by
  refine or_iff_not_imp_left.2 fun hturns ↦ ?_
  rw [not_not] at hturns
  have hc := hcontrol.controlled
  rw [State.Controlled] at hc
  rw [Play] at hs
  split at hc
  · next hco =>
    rw [hco] at hs
    exact hs.exists_alarm sound hc hturns
  · have hdue := hc.due
    simp [hturns] at hdue
  · next left cause hco =>
    rw [hco] at hs
    exact absurd hturns (hs.2.turns_ne_nil hc)
  · next hco => simp [State.isDone, hco] at hdone

theorem Play.scene (hs : Play p lots s) : ∃ stand, Scene p stand lots s := by
  rw [Play] at hs
  split at hs
  · exact ⟨_, hs.toScene⟩
  · exact ⟨_, hs.2.toScene⟩
  · exact ⟨_, hs.2.toScene⟩

/-- Lots stay as they are from a state on, except that untouched components may be started unless
the run was cancelled. -/
def Henceforth (s : ScriptState) (lots lots' : Nat → Lot) : Prop :=
  ∀ i, lots' i = lots i ∨
    lots i = .untouched ∧ s.cancelled = false ∧ ∃ τ, lots' i = .started τ ∧ tick s.now ≤ tick τ

theorem Henceforth.started {lots' : Nat → Lot} (h : Henceforth s lots lots') {i : Nat} {τ : Float}
    (hi : lots i = .started τ) : lots' i = .started τ := by
  obtain h | ⟨h, -⟩ := h i
  · rw [h, hi]
  · rw [hi] at h
    cases h

theorem Play.steps (sound : p.Sound) (hcontrol : Control s) (hs : Play p lots s) (n : Nat) :
    ∃ lots', Play p lots' (steps p.setup n s) ∧ Henceforth s lots lots' := by
  induction n generalizing s lots with
  | zero => exact ⟨lots, hs, fun _ ↦ .inl rfl⟩
  | succ n ih =>
    rw [Run.steps]
    split
    · exact ⟨lots, hs, fun _ ↦ .inl rfl⟩
    · next hdone =>
      rw [Bool.not_eq_true] at hdone
      obtain ⟨stand, hscene⟩ := hs.scene
      obtain ⟨lots₁, hplay, honward⟩ := hs.step sound hcontrol hdone
      obtain ⟨lots', hplay', hhence⟩ := ih (hcontrol.step p.setup_isQuiet hdone) hplay
      have hnow := step_now p.setup_isQuiet hscene.now hscene.dated
      refine ⟨lots', hplay', fun i ↦ ?_⟩
      obtain h₁ | ⟨h₁, hstarted, hcancelled, -⟩ := honward i
      · rw [← h₁]
        refine (hhence i).imp_right fun hlater ↦ ?_
        obtain ⟨hi, hcancelled, τ, hτ, hle⟩ := hlater
        refine ⟨hi, ?_, τ, hτ, hnow.trans hle⟩
        by_contra h
        rw [step_cancelled p.setup_isQuiet (by simpa using h)] at hcancelled
        cases hcancelled
      · exact .inr ⟨h₁, hcancelled, s.now, hhence.started hstarted, le_rfl⟩

theorem Play.isLively (sound : p.Sound) (hcontrol : Control s) (hs : Play p lots s)
    (hdone : s.isDone = false) : s.IsLively := by
  obtain h | ⟨-, t, ht, hinstant⟩ := hs.turns_or_alarm sound hcontrol hdone
  · exact .inl h
  · by_cases hturns : s.turns = []
    · obtain ⟨stand, hscene⟩ := hs.scene
      obtain ⟨-, hnext⟩ := List.append_eq_nil_iff.1 hturns
      exact .inr (exists_due hscene.now hscene.dated hnext ht hinstant)
    · exact .inl hturns

/-- A scripted run ends when its potential is used up. -/
theorem Play.isDone_steps (sound : p.Sound) (hcontrol : Control s) (hs : Play p lots s) {n : Nat}
    (hn : s.potential p.setup Rehearsal.budget ≤ n) : (Run.steps p.setup n s).isDone = true :=
  isDone_of_lively p.setup_isQuiet (Runner.rehearsed_frugal p.script.cue)
    (P := fun s ↦ ∃ lots, Play p lots s)
    (fun _ hcontrol ⟨_, hs⟩ hdone ↦ hs.isLively sound hcontrol hdone)
    (fun _ hcontrol ⟨_, hs⟩ hdone ↦
      have ⟨lots', hplay, _⟩ := hs.step sound hcontrol hdone
      ⟨lots', hplay⟩)
    hcontrol ⟨lots, hs⟩ hn

/-! ## Beginnings -/

variable {cancellation : Cancellation} {now : Float} {shared : Rehearsal.Shared}

theorem opening_going (hearlier : ∀ c, p.earlier c = shared.count c) (hnow : IsInstant now)
    (hdelays : ∀ delay ∈ cancellation.delays, 0 ≤ delay) :
    Going p (fun _ ↦ .untouched) (.opening p.setup cancellation now shared p.components) := by
  have hsettles {i : Nat} {o : Outcome} :
      ¬ (State.opening p.setup cancellation now shared p.components).Settles i o := by
    change (p.components.map fun c ↦ { component := c })[i]?.map Place.slot ≠ some (.settled o)
    rw [List.getElem?_map]
    cases p.components[i]? <;> simp
  refine ⟨⟨hnow, fun t ht ↦ ?_, ?_, fun i c hc ↦ ⟨⟨⟨rfl, ?_, ?_⟩, ?_, ?_⟩, ?_⟩,
    ⟨0, Nat.zero_le _, by simp⟩, nofun, nofun, fun _ _ _ h ↦ absurd rfl h⟩,
    fun _ i o h ↦ absurd h hsettles⟩
  · obtain ⟨delay, hdelay, rfl⟩ := List.mem_map.1 ht
    exact .inl (isInstant_add hnow (hdelays delay hdelay)).1
  · exact List.map_map.trans (List.map_id _)
  · simp [State.view, State.opening]
  · simp [State.view, State.opening]
  · exact (hearlier c).symm
  · simp [State.view, State.opening, Journal.events, Note.info]
  · simp [State.view, State.opening, State.slot?, hc]

theorem begin_play (sound : p.Sound) (hearlier : ∀ c, p.earlier c = shared.count c)
    (hnow : IsInstant now) (hdelays : ∀ delay ∈ cancellation.delays, 0 ≤ delay) :
    ∃ lots, Play p lots (begin p.setup cancellation now shared p.components) :=
  have ⟨lots, hplay, _⟩ := (opening_going hearlier hnow hdelays).fill sound
  ⟨lots, hplay⟩

/-- A scripted run is a play after any number of turns. -/
theorem steps_play (sound : p.Sound) (hearlier : ∀ c, p.earlier c = shared.count c)
    (hnow : IsInstant now) (hdelays : ∀ delay ∈ cancellation.delays, 0 ≤ delay) (n : Nat) :
    ∃ lots, Play p lots (steps p.setup n (begin p.setup cancellation now shared p.components)) ∧
      Control (steps p.setup n (begin p.setup cancellation now shared p.components)) := by
  have hcontrol := Control.begin p.setup_isQuiet cancellation now shared p.components
  obtain ⟨_, hplay⟩ := begin_play sound hearlier hnow hdelays
  obtain ⟨lots, hplay, -⟩ := hplay.steps sound hcontrol n
  exact ⟨lots, hplay, hcontrol.steps p.setup_isQuiet n⟩

/-- A scripted run is over when its turns are used up. -/
theorem final_isDone (sound : p.Sound) (hearlier : ∀ c, p.earlier c = shared.count c)
    (hnow : IsInstant now) (hdelays : ∀ delay ∈ cancellation.delays, 0 ≤ delay) :
    (final p.setup cancellation now shared p.components).isDone = true := by
  obtain ⟨lots, hplay⟩ := begin_play sound hearlier hnow hdelays
  exact hplay.isDone_steps sound (.begin p.setup_isQuiet _ _ _ _)
    (potential_begin Rehearsal.budget p.setup_isQuiet)

end Run

end Testbed

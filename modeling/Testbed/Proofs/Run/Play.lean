import Testbed.Proofs.Run.Changes

/-!
# Plays

A scripted run as a whole.  Its components are started in the order of the registry, so that those
started so far form a prefix; each of them is where its lot and the stage of the run say.  A turn
keeps all lots but those of the components that it starts.
-/

namespace Testbed.Run

open Clock

/-- What is tested in a scripted run, how, and by which script. -/
structure Production where
  script : Script
  policy : Policy
  components : List String
  /-- How often a component was tested before the run. -/
  earlier : String → Nat

namespace Production

def role (p : Production) (c : String) : Role where
  policy := p.policy
  script := p.script
  component := c
  earlier := p.earlier c

def setup (p : Production) : Setup Rehearsal.Shared Rehearsal.Invocation :=
  p.script.setup p.policy

theorem setup_isQuiet (p : Production) : p.setup.IsQuiet :=
  Script.setup_isQuiet p.script p.policy

structure Sound (p : Production) : Prop where
  orderly : p.script.Orderly
  nodup : p.components.Nodup
  parallelism : 1 ≤ p.policy.parallelism

end Production

/-- What holds of a scripted run at any time, given where its components stand. -/
structure Scene (p : Production) (stand : Role → Nat → View → Lot → Prop) (lots : Nat → Lot)
    (s : ScriptState) : Prop where
  now : IsInstant s.now
  dated : Dated s.timers
  components : s.places.map (·.component) = p.components
  standing : ∀ i c, p.components[i]? = some c → stand (p.role c) i (s.view i c) (lots i)
  started : ∃ k ≤ p.components.length, ∀ i, lots i = .untouched ↔ k ≤ i
  since : ∀ i τ, lots i = .started τ → IsInstant τ ∧ tick τ ≤ tick s.now
  halted : s.halted = true →
    p.policy.failFast = true ∧ ∃ i o, s.Settles i o ∧ halting o.status = true
  /-- One at a time, nothing is started after a failure that halts the run. -/
  solo : p.policy.failFast = true → p.policy.parallelism ≤ 1 → ∀ j, lots j ≠ .untouched →
    ∀ i < j, ∃ o, s.Settles i o ∧ halting o.status = false

/-- The run goes on, and is halted by what is settled if that is wanted. -/
structure Going (p : Production) (lots : Nat → Lot) (s : ScriptState) : Prop extends
    Scene p Standing.Running lots s where
  halts : p.policy.failFast = true → ∀ i o, s.Settles i o → halting o.status = true → s.halted = true

/-- The run was cancelled and waits for the end of interrupted work. -/
structure Closing (p : Production) (lots : Nat → Lot) (s : ScriptState) : Prop extends
    Scene p Standing.Draining lots s where
  cancelled : s.cancelled = true

/-- The run is over. -/
structure Closed (p : Production) (lots : Nat → Lot) (s : ScriptState) : Prop extends
    Scene p (fun r _ v lot ↦ Standing.Over r s.cancelled v lot) lots s where
  untouched : (∃ i < p.components.length, lots i = .untouched) → s.cancelled = true ∨ s.halted = true

/-- Where a scripted run stands. -/
def Play (p : Production) (lots : Nat → Lot) (s : ScriptState) : Prop :=
  match s.coordinator with
  | .waiting _ => Going p lots s
  | .draining _ cause => cause = none ∧ Closing p lots s
  | .done abort => abort = none ∧ Closed p lots s

/-- Lots stay as they are between two states, except that untouched components may be started if the
run was not cancelled and is not halted. -/
def Onward (s s' : ScriptState) (lots lots' : Nat → Lot) : Prop :=
  ∀ i, lots' i = lots i ∨
    lots i = .untouched ∧ lots' i = .started s.now ∧ s.cancelled = false ∧ s'.halted = false

theorem Onward.refl (s s' : ScriptState) (lots : Nat → Lot) : Onward s s' lots lots :=
  fun _ ↦ .inl rfl

variable {p : Production} {lots : Nat → Lot} {s s' : ScriptState} {t : Turn} {i : Nat}

namespace Scene

variable {stand stand' : Role → Nat → View → Lot → Prop}

theorem length (hs : Scene p stand lots s) : s.places.length = p.components.length := by
  rw [← hs.components, List.length_map]

theorem component (hs : Scene p stand lots s) {c : String} (hc : p.components[i]? = some c) :
    s.places[i]?.map (·.component) = some c := by
  rw [← hc, ← hs.components, List.getElem?_map]

theorem of_place (hs : Scene p stand lots s) {place : Place Rehearsal.Invocation}
    (h : s.places[i]? = some place) : p.components[i]? = some place.component := by
  rw [← hs.components, List.getElem?_map, h]
  rfl

theorem place_component (hs : Scene p stand lots s) {c : String} (hc : p.components[i]? = some c) :
    ∀ place, s.places[i]? = some place → place.component = c := by
  intro place hplace
  rw [hs.of_place hplace] at hc
  exact Option.some_inj.1 hc

theorem exists_component (hs : Scene p stand lots s) {slot : Slot Rehearsal.Invocation}
    (h : s.slot? i = some slot) : ∃ c, p.components[i]? = some c := by
  obtain ⟨c, hc⟩ := State.slot?_eq_some.1 h
  exact ⟨c, hs.of_place hc⟩

/-- A scene changes into another one if the standings do, and all that is settled stays so. -/
theorem change (hs : Scene p stand lots s) (hnow : IsInstant s'.now) (hle : tick s.now ≤ tick s'.now)
    (hdated : Dated s'.timers)
    (hcomponents : s'.places.map (·.component) = s.places.map (·.component))
    (hsettles : ∀ i o, s.Settles i o → s'.Settles i o)
    (hhalted : s'.halted = true → s.halted = true ∨
      p.policy.failFast = true ∧ ∃ i o, s'.Settles i o ∧ halting o.status = true)
    (hstanding : ∀ i c, p.components[i]? = some c → stand (p.role c) i (s.view i c) (lots i) →
      stand' (p.role c) i (s'.view i c) (lots i)) : Scene p stand' lots s' where
  now := hnow
  dated := hdated
  components := hcomponents.trans hs.components
  standing i c hc := hstanding i c hc (hs.standing i c hc)
  started := hs.started
  since i τ h := ⟨(hs.since i τ h).1, (hs.since i τ h).2.trans hle⟩
  halted h := by
    obtain h | h := hhalted h
    · obtain ⟨hfast, i, o, hi, ho⟩ := hs.halted h
      exact ⟨hfast, i, o, hsettles i o hi, ho⟩
    · exact h
  solo hfast hone j hj i hi := by
    obtain ⟨o, ho, hpassed⟩ := hs.solo hfast hone j hj i hi
    exact ⟨o, hsettles i o ho, hpassed⟩

end Scene

/-! ## Turns about a place -/

theorem Turned.slot?_iff {σ ι : Type} {s s' : State σ ι} (h : Turned i s s') {j : Nat} {slot : Slot ι}
    (hrun : slot.isRunning = false) : s'.slot? j = some slot ↔ s.slot? j = some slot := by
  have hslot (hactive : s.isActive j = false) : s'.slot? j = s.slot? j := by
    by_cases hj : j = i
    · subst hj
      exact h.slot hactive
    · exact h.slot?_ne hj
  have hinactive {slot : Option (Slot ι)} (hrun : slot.any Slot.isRunning = false) :
      slot.any Slot.isActive = false := by
    cases slot with
    | none => rfl
    | some slot =>
      rw [Option.any_some, Slot.isRunning_eq] at hrun
      exact (Bool.or_eq_false_iff.1 hrun).1
  have hrunning := h.isRunning j
  constructor
  · intro hs
    rw [hs, Option.any_some, hrun] at hrunning
    rw [← hslot (hinactive hrunning.symm), hs]
  · intro hs
    rw [hs, Option.any_some, hrun] at hrunning
    rw [hslot (hinactive (by rw [hs, Option.any_some, hrun])), hs]

theorem Turned.settles_iff {σ ι : Type} {s s' : State σ ι} (h : Turned i s s') {j : Nat} {o : Outcome} :
    s'.Settles j o ↔ s.Settles j o :=
  h.slot?_iff rfl

theorem Standing.Running.isPlain {r : Role} {v : View} {lot : Lot}
    (h : Standing.Running r i v lot) : ∀ slot ∈ v.slot, slot.IsPlain := by
  intro slot hslot w invocation awaits signals hw hstage
  subst hw
  cases lot with
  | untouched => cases h.2.symm.trans hslot
  | started τ =>
    cases h with
    | fresh slot =>
      cases slot.symm.trans hslot
      cases hstage
    | underway attempt start w' slot pos instant course pace =>
      cases slot.symm.trans hslot
      obtain ⟨awaits, signals, hstage', -⟩ := pace.stage
      cases hstage'.symm.trans hstage
      exact ⟨_, rfl, Role.cue_aftermath r attempt⟩
    | finished w' slot =>
      cases slot.symm.trans hslot
      cases hstage
    | settled o slot => cases slot.symm.trans hslot

theorem Standing.Draining.isPlain {r : Role} {v : View} {lot : Lot}
    (h : Standing.Draining r i v lot) : ∀ slot ∈ v.slot, slot.IsPlain := by
  cases lot with
  | untouched =>
    have hrunning : Standing.Running r i v .untouched := h
    exact hrunning.isPlain
  | started τ =>
    obtain ⟨h, -⟩ | h := h
    · have hrunning : Standing.Running r i v (.started τ) := h
      exact hrunning.isPlain
    · intro slot hslot w invocation awaits signals hw hstage
      subst hw
      cases h with
      | waits w' cue awaits rung slot stage aftermath =>
        cases slot.symm.trans hslot
        cases stage.symm.trans hstage
        exact ⟨cue, rfl, aftermath⟩
      | left w' slot =>
        cases slot.symm.trans hslot
        cases hstage

theorem State.view_before (s : ScriptState) (t : Turn) (i : Nat) (c : String) :
    (s.before t).view i c = { s.view i c with
      queue := if t.place? = some i then t :: (s.view i c).queue else (s.view i c).queue } := by
  by_cases h : t.place? = some i <;> simp [State.view, State.before, State.slot?, h]

/-- A turn about a place changes its standing as if there were no other places. -/
theorem Scene.turned {stand : Role → Nat → View → Lot → Prop} (sound : p.Sound)
    (hs : Scene p stand lots (s.before t)) (ht : t.place? = some i)
    (hplain : ∀ c lot v, stand (p.role c) i v lot → ∀ slot ∈ v.slot, slot.IsPlain)
    (hhandle : ∀ c lot, s.places[i]?.map (·.component) = some c →
      stand (p.role c) i { s.view i c with queue := t :: (s.view i c).queue } lot →
      stand (p.role c) i ((handle p.setup t s).view i c) lot) :
    Scene p stand lots (handle p.setup t s) := by
  have hturned := handle_turned p.setup_isQuiet ht s
  have hnow : IsInstant s.now := hs.now
  refine hs.change ?_ ?_ ?_ hturned.components (fun j o h ↦ hturned.settles_iff.2 h)
    (fun h ↦ .inl (hturned.halted.symm.trans h)) fun j c hc hstand ↦ ?_
  · rwa [hturned.now]
  · rw [hturned.now]
    exact le_rfl
  · refine Dated.handle sound.orderly hnow hs.dated ht fun slot hslot ↦ ?_
    obtain ⟨c, hc⟩ := hs.exists_component hslot
    exact hplain c _ _ (hs.standing i c hc) slot hslot
  · rw [State.view_before] at hstand
    by_cases hij : j = i
    · subst hij
      rw [if_pos ht] at hstand
      exact hhandle c _ (hs.component hc) hstand
    · rw [if_neg (by simpa [ht] using Ne.symm hij)] at hstand
      have hother : (handle p.setup t s).view j c = s.view j c := by
        refine view_other ht hij fun place hplace hcomponent ↦ hij ?_
        have hi := hs.of_place hplace
        rw [hcomponent] at hi
        have hlt := (List.getElem?_eq_some_iff.1 hc).1
        exact (List.getElem?_inj hlt sound.nodup).1 (hc.trans hi.symm)
      rwa [hother]

/-- A turn about a place is taken. -/
theorem Play.turned (sound : p.Sound) (hs : Play p lots (s.before t)) (ht : t.place? = some i)
    (hdone : s.isDone = false) : Play p lots (handle p.setup t s) := by
  have hturned := handle_turned p.setup_isQuiet ht s
  rw [Play, show (s.before t).coordinator = s.coordinator from rfl] at hs
  rw [Play, hturned.coordinator]
  split at hs
  · refine ⟨hs.toScene.turned sound ht (fun c lot v h ↦ h.isPlain) fun c lot hc h ↦ ?_, ?_⟩
    · exact Standing.Running.handle sound.orderly hs.now ht hc rfl h
    · intro hfast j o hj ho
      rw [hturned.halted]
      exact hs.halts hfast j o (hturned.settles_iff.1 hj) ho
  · obtain ⟨hcause, hs⟩ := hs
    refine ⟨hcause, hs.toScene.turned sound ht (fun c lot v h ↦ h.isPlain) fun c lot hc h ↦ ?_, ?_⟩
    · exact Standing.Draining.handle ht hc rfl h
    · rw [hturned.cancelled]
      exact hs.cancelled
  · next hco => simp [State.isDone, hco] at hdone

/-! ## The clock and the turns that only tell the coordinator -/

theorem Play.advance (sound : p.Sound) (hs : Play p lots s) (hqueue : s.queue = [])
    (hdone : s.isDone = false) : Play p lots s.advance := by
  -- the clock moves in every view in the same way
  have hscene {stand : Role → Nat → View → Lot → Prop} (hs : Scene p stand lots s)
      (hstand : ∀ c i lot v, v.queue = [] → Ticks v.timers v.next v.now s.nextInstant →
        stand (p.role c) i v lot → stand (p.role c) i (v.advanced s.nextInstant) lot) :
      Scene p stand lots s.advance := by
    have hticks := nextInstant_ticks hs.now hs.dated
    refine hs.change hticks.instant' hticks.le (fun t ht ↦ hs.dated t ?_) rfl (fun _ _ ↦ id) .inl
      fun i c hc h ↦ ?_
    · simp only [State.advance, List.partition_eq_filter_filter] at ht
      exact (List.mem_filter.1 ht).1
    · rw [view_advance]
      refine hstand c i _ _ ?_ (State.view_ticks hticks i c) h
      simp [State.view, hqueue]
  rw [Play] at hs
  rw [Play, show s.advance.coordinator = s.coordinator from rfl]
  split at hs
  · refine ⟨hscene hs.toScene fun c i lot v hv ht h ↦ ?_, hs.halts⟩
    exact Standing.Running.advance sound.orderly hv ht h
  · refine ⟨hs.1, hscene hs.2.toScene fun c i lot v hv ht h ↦ ?_, hs.2.cancelled⟩
    exact Standing.Draining.advance sound.orderly hv ht h
  · next hco => simp [State.isDone, hco] at hdone

/-- What a turn that only tells the coordinator something leaves alone. -/
structure Told (s s' : ScriptState) : Prop where
  now : s'.now = s.now
  timers : s'.timers = s.timers
  shared : s'.shared = s.shared
  places : s'.places = s.places
  halted : s'.halted = s.halted
  journal : s'.journal = s.journal
  cancelled : s.cancelled = true → s'.cancelled = true
  coordinator : (∃ woken woken', s.coordinator = .waiting woken ∧ s'.coordinator = .waiting woken') ∨
    (∃ left left' cause, s.coordinator = .draining left cause ∧ s'.coordinator = .draining left' cause) ∨
      s.isDone = true

theorem told_of_place_none (setup : Setup Rehearsal.Shared Rehearsal.Invocation) (ht : t.place? = none)
    (hne : t ≠ .coordinate) (s : ScriptState) : Told s (handle setup t s) := by
  have h := handle_tells setup ht hne s
  refine ⟨h.now, h.timers, h.shared, h.places, h.halted, h.journal, h.isCancelled, ?_⟩
  obtain heq | ⟨hco, hco'⟩ | ⟨left, cause, hco, hco'⟩ := h.coordinator
  · rw [heq]
    cases hco : s.coordinator with
    | waiting woken => exact .inl ⟨woken, woken, rfl, rfl⟩
    | draining left cause => exact .inr (.inl ⟨left, left, cause, rfl, rfl⟩)
    | done abort => exact .inr (.inr (by simp [State.isDone, hco]))
  · exact .inl ⟨false, true, hco, hco'⟩
  · exact .inr (.inl ⟨left + 1, left, cause, hco, hco'⟩)

/-- A turn that is not about a place is seen in no view. -/
theorem Play.of_before (hs : Play p lots (s.before t)) (ht : t.place? = none) : Play p lots s := by
  have hscene {stand : Role → Nat → View → Lot → Prop} (hs : Scene p stand lots (s.before t)) :
      Scene p stand lots s := by
    refine hs.change hs.now le_rfl hs.dated rfl (fun _ _ ↦ id) .inl fun i c hc h ↦ ?_
    rw [State.view_before, if_neg (by simp [ht])] at h
    exact h
  rw [Play, show (s.before t).coordinator = s.coordinator from rfl] at hs
  rw [Play]
  split at hs
  · exact ⟨hscene hs.toScene, hs.halts⟩
  · exact ⟨hs.1, hscene hs.2.toScene, hs.2.cancelled⟩
  · exact ⟨hs.1, hscene hs.2.toScene, hs.2.untouched⟩

/-- A turn is taken that only tells the coordinator something. -/
theorem Play.told (hs : Play p lots s) (ht : t.place? = none) (hne : t ≠ .coordinate)
    (hdone : s.isDone = false) : Play p lots (handle p.setup t s) := by
  have htold := told_of_place_none p.setup ht hne s
  have hslot (i : Nat) : (handle p.setup t s).slot? i = s.slot? i := by
    rw [State.slot?, htold.places, State.slot?]
  have hscene {stand : Role → Nat → View → Lot → Prop} (hs : Scene p stand lots s) :
      Scene p stand lots (handle p.setup t s) := by
    refine hs.change ?_ ?_ ?_ ?_ (fun i o h ↦ (hslot i).trans h) (fun h ↦ .inl ?_) fun i c hc h ↦ ?_
    · rw [htold.now]
      exact hs.now
    · rw [htold.now]
    · rw [htold.timers]
      exact hs.dated
    · rw [htold.places]
    · rwa [htold.halted] at h
    · rwa [Production.setup, view_notice_like ht hne]
  rw [Play] at hs ⊢
  obtain ⟨woken, woken', hco, hco'⟩ | ⟨left, left', cause, hco, hco'⟩ | h := htold.coordinator
  · rw [hco] at hs
    rw [hco']
    refine ⟨hscene hs.toScene, fun hfast i o hi ho ↦ ?_⟩
    rw [htold.halted]
    exact hs.halts hfast i o ((hslot i).symm.trans hi) ho
  · rw [hco] at hs
    rw [hco']
    exact ⟨hs.1, hscene hs.2.toScene, htold.cancelled hs.2.cancelled⟩
  · rw [hdone] at h
    cases h

/-! ## Settling -/

theorem Standing.Running.outcome {r : Role} {v : View} {lot : Lot} (orderly : r.script.Orderly)
    (h : Standing.Running r i v lot) {slot : Slot Rehearsal.Invocation} (hslot : v.slot = some slot)
    {f : Finish} (hf : slot.finish? = some f) : ∃ o, f = .outcome o := by
  obtain ⟨w, rfl, hw⟩ := Slot.finish?_eq_some.1 hf
  cases lot with
  | untouched => cases h.2.symm.trans hslot
  | started τ =>
    cases h with
    | fresh slot =>
      cases slot.symm.trans hslot
      cases hw
    | underway attempt start w' slot pos instant course pace =>
      cases slot.symm.trans hslot
      obtain ⟨awaits, signals, hstage, -⟩ := pace.stage
      cases hstage.symm.trans hw
    | finished w' slot =>
      cases slot.symm.trans hslot
      cases hw
      obtain ⟨o, ho, -⟩ := Role.courseFrom_outcome r orderly τ (attemptsLeft r.policy 1) 1 τ
      exact ⟨o, ho⟩
    | settled o slot => cases slot.symm.trans hslot

/-- A scripted run is never aborted. -/
theorem Going.abort?_eq (sound : p.Sound) (hs : Going p lots s) : s.abort? p.setup = none := by
  refine (State.settle_abort _ _ _).2 fun place hplace f hf ↦ ?_
  obtain ⟨i, hi⟩ := List.mem_iff_getElem?.1 hplace
  have hslot : s.slot? i = some place.slot := by rw [State.slot?, hi]; rfl
  exact Standing.Running.outcome sound.orderly (hs.standing i _ (hs.of_place hi)) hslot hf

/-- All ended work is settled. -/
theorem Going.collected (sound : p.Sound) (hs : Going p lots s) :
    Going p lots (s.collected p.setup) := by
  have habort := hs.abort?_eq sound
  obtain ⟨new, hnew, -⟩ := s.collected_eq p.setup
  have hnow : (s.collected p.setup).now = s.now := by rw [hnew]
  refine ⟨hs.toScene.change ?_ ?_ ?_ (collected_components _ _)
    (fun i o h ↦ (collected_settles habort).2 (.inl h)) (fun h ↦ ?_) (fun i c hc h ↦ ?_), ?_⟩
  · rw [hnow]
    exact hs.now
  · rw [hnow]
  · rw [hnew]
    exact hs.dated
  · obtain h | ⟨hfast, i, o, hi, ho⟩ := (collected_halted habort).1 h
    · exact .inl h
    · exact .inr ⟨hfast, i, o, (collected_settles habort).2 (.inr hi), ho⟩
  · rw [view_collected habort]
    exact Standing.Running.settle (by simp) sound.orderly h
  · intro hfast i o hi ho
    rw [collected_halted habort]
    obtain hi | hi := (collected_settles habort).1 hi
    · exact .inl (hs.halts hfast i o hi ho)
    · exact .inr ⟨hfast, i, o, hi, ho⟩

/-! ## Ends of a run -/

theorem not_isRunning_of_zero (h : s.runningCount = 0) {slot : Slot Rehearsal.Invocation}
    (hslot : s.slot? i = some slot) : slot.isRunning = false := by
  by_contra hrun
  have hpos : 0 < s.runningCount := runningCount_pos.2 ⟨i, by simpa [hslot] using hrun⟩
  omega

theorem Going.note (hs : Going p lots s) (line : LogLine) : Going p lots (s.note (.log line)) :=
  ⟨hs.toScene.change hs.now le_rfl hs.dated rfl (fun _ _ ↦ id) .inl fun i c _ h ↦ by
    rwa [view_note_log], hs.halts⟩

/-- All work that waits is interrupted. -/
theorem Going.drain (hs : Going p lots s) (hfresh : ∀ i, s.isFresh i = false)
    (hcancelled : s.cancelled = true) (cause : Option Abort) :
    Closing p lots (drain cause s) := by
  have hdrain := drain_eq cause s
  have hslot (i : Nat) : (Run.drain cause s).slot? i = (s.slot? i).map Slot.interrupted := by
    rw [hdrain, State.slot?, State.slot?, List.getElem?_map, Option.map_map, Option.map_map]
    rfl
  refine ⟨hs.toScene.change ?_ ?_ ?_ ?_ (fun i o h ↦ ?_) (fun h ↦ .inl ?_) fun i c hc h ↦ ?_, ?_⟩
  · rw [hdrain]
    exact hs.now
  · rw [hdrain]
  · rw [hdrain]
    exact hs.dated
  · rw [hdrain, List.map_map]
    rfl
  · rw [State.Settles, hslot, h]
    rfl
  · rwa [hdrain] at h
  · rw [view_drain]
    refine Standing.Running.drain (by simp) (fun slot hslot ↦ ?_) h
    have hi := hfresh i
    rwa [State.isFresh, show s.slot? i = some slot from hslot] at hi
  · rwa [hdrain]

/-- If no work is underway then there is nothing to wait for. -/
theorem Going.closing (hs : Going p lots s) (hcancelled : s.cancelled = true)
    (hzero : s.runningCount = 0) : Closing p lots s := by
  refine ⟨hs.toScene.change hs.now le_rfl hs.dated rfl (fun _ _ ↦ id) .inl fun i c hc h ↦ ?_,
    hcancelled⟩
  generalize hlot : lots i = lot at h ⊢
  cases lot with
  | untouched => exact h
  | started τ =>
    refine .inl ⟨h, fun slot hslot ↦ ?_⟩
    have hrun := not_isRunning_of_zero hzero (show s.slot? i = some slot from hslot)
    rw [Slot.isRunning_eq] at hrun
    exact (Bool.or_eq_false_iff.1 hrun).1

/-- The interrupted work has ended, and the run is over. -/
theorem Closing.concludeDrain (sound : p.Sound) (hs : Closing p lots s) (hactive : s.activeCount = 0) :
    Closed p lots (concludeDrain p.setup none s) := by
  obtain ⟨new, heq, -⟩ := concludeDrain_eq_none p.setup_isQuiet s
  have hcancelled : (Run.concludeDrain p.setup none s).cancelled = true := by
    rw [heq]
    exact hs.cancelled
  refine ⟨hs.toScene.change ?_ ?_ ?_ ?_ (fun i o h ↦ ?_) (fun h ↦ .inl ?_) fun i c hc h ↦ ?_,
    fun _ ↦ .inl hcancelled⟩
  · rw [heq]
    exact hs.now
  · rw [heq]
  · rw [heq]
    exact hs.dated
  · rw [heq, List.map_map]
    refine List.map_congr_left fun place _ ↦ ?_
    rw [Function.comp_apply, Place.skip_eq, Place.drained_eq]
  · obtain ⟨c, hc⟩ := State.slot?_eq_some.1 h
    rw [heq, State.Settles, State.slot?, List.getElem?_map, hc]
    rfl
  · rwa [heq] at h
  · obtain ⟨skips, hskips, hview⟩ := view_concludeDrain p.script p.policy
      (hs.toScene.place_component hc)
    rw [Production.setup] at hcancelled ⊢
    rw [hview, hcancelled, hs.cancelled]
    refine Standing.Draining.over hskips sound.orderly (fun slot hslot ↦ ?_) h
    obtain ⟨c', hc'⟩ := State.slot?_eq_some.1 (show s.slot? i = some slot from hslot)
    simpa using List.countP_eq_zero.1 hactive _ (List.mem_of_getElem? hc')

/-- Nothing is left to be started, and the run is over. -/
theorem Going.complete (hs : Going p lots s) (hzero : s.runningCount = 0)
    (huntouched : (∃ i < p.components.length, lots i = .untouched) →
      s.cancelled = true ∨ s.halted = true) : Closed p lots (complete p.setup s) := by
  obtain ⟨new, heq, -⟩ := complete_eq p.setup_isQuiet s
  have hcancelled : (Run.complete p.setup s).cancelled = s.cancelled := by rw [heq]
  refine ⟨hs.toScene.change ?_ ?_ ?_ ?_ (fun i o h ↦ ?_) (fun h ↦ .inl ?_) fun i c hc h ↦ ?_, ?_⟩
  · rw [heq]
    exact hs.now
  · rw [heq]
  · rw [heq]
    exact hs.dated
  · rw [heq, List.map_map]
    exact List.map_congr_left fun place _ ↦ by rw [Function.comp_apply, Place.skip_eq]
  · obtain ⟨c, hc⟩ := State.slot?_eq_some.1 h
    rw [heq, State.Settles, State.slot?, List.getElem?_map, hc]
    rfl
  · rwa [heq] at h
  · obtain ⟨skips, hskips, hview⟩ := view_complete p.script p.policy
      (hs.toScene.place_component hc)
    rw [hcancelled, Production.setup, hview]
    exact Standing.Running.over hskips _ (fun slot hslot ↦ not_isRunning_of_zero hzero hslot) h
  · rw [heq]
    exact huntouched

/-! ## Starts -/

theorem Going.slot?_eq_pending (hs : Going p lots s) {k : Nat} (hk : ∀ i, lots i = .untouched ↔ k ≤ i) :
    s.slot? i = some .pending ↔ k ≤ i ∧ i < p.components.length := by
  constructor
  · intro h
    obtain ⟨c, hc⟩ := hs.toScene.exists_component h
    refine ⟨?_, (List.getElem?_eq_some_iff.1 hc).1⟩
    by_contra hlt
    have hrunning := hs.standing i c hc
    cases hlot : lots i with
    | untouched => exact hlt ((hk i).1 hlot)
    | started τ =>
      rw [hlot] at hrunning
      cases hrunning with
      | fresh slot => cases slot.symm.trans h
      | underway attempt start w slot => cases slot.symm.trans h
      | finished w slot => cases slot.symm.trans h
      | settled o slot => cases slot.symm.trans h
  · rintro ⟨hle, hlt⟩
    have hrunning := hs.standing i _ (List.getElem?_eq_getElem hlt)
    rw [(hk i).2 hle] at hrunning
    exact hrunning.2

theorem Going.mem_launchable (hs : Going p lots s) {k : Nat} (hk : ∀ i, lots i = .untouched ↔ k ≤ i)
    (free : Nat) : i ∈ s.launchable free ↔ k ≤ i ∧ i < p.components.length ∧ i < k + free := by
  have hrange (n : Nat) : (List.range n).filter (k ≤ ·) = List.range' k (n - k) := by
    induction n with
    | zero => simp
    | succ n ih =>
      rw [List.range_succ, List.filter_append, ih]
      by_cases hn : k ≤ n
      · rw [Nat.succ_sub hn, List.range'_concat]
        simp [hn]
      · simp [hn, show n + 1 - k = 0 by omega, show n - k = 0 by omega]
  have hpending : s.placesWith Slot.isPending = List.range' k (p.components.length - k) := by
    rw [← hrange, State.placesWith, hs.toScene.length]
    refine List.filter_congr fun i hi ↦ ?_
    rw [Bool.eq_iff_iff, Option.any_eq_true, decide_eq_true_iff]
    have hlt := List.mem_range.1 hi
    constructor
    · rintro ⟨slot, hslot, hpending⟩
      cases slot with
      | pending => exact ((hs.slot?_eq_pending hk).1 hslot).1
      | running | settled => cases hpending
    · exact fun hle ↦ ⟨.pending, (hs.slot?_eq_pending hk).2 ⟨hle, hlt⟩, rfl⟩
  rw [State.launchable, hpending]
  obtain hle | hge := Nat.le_total (p.components.length - k) free
  · rw [List.take_range'_of_length_le hle, List.mem_range'_1]
    omega
  · rw [List.take_range'_of_length_ge hge, List.mem_range'_1]
    omega

/-- The lots after components were started. -/
def launchedLots (s : ScriptState) (free : Nat) (lots : Nat → Lot) (i : Nat) : Lot :=
  if i ∈ s.launchable free then .started s.now else lots i

/-- What is settled stays so, and nothing else is settled. -/
theorem Going.launch_settles (hs : Going p lots s) (free : Nat) {o : Outcome} :
    (launch free s).Settles i o ↔ s.Settles i o := by
  obtain ⟨k, -, hk⟩ := hs.started
  rw [State.Settles, launch_slot?, State.Settles]
  split
  · next hi =>
    obtain ⟨hle, hlt, -⟩ := (hs.mem_launchable hk free).1 hi
    simp [(hs.slot?_eq_pending hk).2 ⟨hle, hlt⟩]
  · rfl

/-- If nothing is underway, then what was started is settled, and none of it has failed. -/
theorem Going.passed_of_idle (hs : Going p lots s) (hhalted : s.halted = false)
    (hzero : s.runningCount = 0) (hfast : p.policy.failFast = true) (hi : i < p.components.length)
    (hlot : lots i ≠ .untouched) : ∃ o, s.Settles i o ∧ halting o.status = false := by
  have hrunning (w : Worker Rehearsal.Invocation) (h : s.slot? i = some (.running w)) : False := by
    cases not_isRunning_of_zero hzero h
  have hstand := hs.standing i _ (List.getElem?_eq_getElem hi)
  cases h : lots i with
  | untouched => exact absurd h hlot
  | started τ =>
    rw [h] at hstand
    cases hstand with
    | fresh slot => exact (hrunning _ slot).elim
    | underway attempt start w slot => exact (hrunning _ slot).elim
    | finished w slot => exact (hrunning _ slot).elim
    | settled o slot =>
      refine ⟨o, slot, ?_⟩
      by_contra ho
      rw [hs.halts hfast i o slot (by simpa using ho)] at hhalted
      cases hhalted

/-- Components are started in the free places. -/
theorem Going.launch (hs : Going p lots s) (hhalted : s.halted = false) :
    Going p (launchedLots s (p.policy.parallelism.toNat - s.runningCount) lots)
      (launch (p.policy.parallelism.toNat - s.runningCount) s) := by
  generalize hfree : p.policy.parallelism.toNat - s.runningCount = free
  obtain ⟨k, hkle, hk⟩ := hs.started
  have hmem {i : Nat} := hs.mem_launchable (i := i) hk free
  have hsettles {i : Nat} {o : Outcome} := hs.launch_settles free (i := i) (o := o)
  have hlaunch := launch_eq free s
  refine ⟨⟨?now, ?dated, (launch_components free s).trans hs.components, fun i c hc ↦ ?standing,
    ?started, fun i τ h ↦ ?since, fun h ↦ ?halted, fun hfast hone j hj i hi ↦ ?solo⟩,
    fun hfast i o hi ho ↦ ?halts⟩
  case now =>
    rw [hlaunch]
    exact hs.now
  case dated =>
    rw [hlaunch]
    exact hs.dated
  case standing =>
    have hstand := hs.standing i c hc
    rw [view_launch, launchedLots]
    split
    · next hi =>
      rw [(hk i).2 (hmem.1 hi).1] at hstand
      exact Standing.launched (by simp) hstand.1
    · exact hstand
  case started =>
    refine ⟨min (k + free) p.components.length ⊔ k, by omega, fun i ↦ ?_⟩
    rw [launchedLots]
    split
    · next hi =>
      have hi := hmem.1 hi
      simp only [reduceCtorEq, false_iff]
      omega
    · next hi =>
      rw [hmem] at hi
      rw [hk]
      omega
  case since =>
    have hnow : (Run.launch free s).now = s.now := by rw [hlaunch]
    rw [hnow]
    rw [launchedLots] at h
    split at h
    · cases h
      exact ⟨hs.now, le_rfl⟩
    · exact hs.since i τ h
  case halted =>
    rw [hlaunch] at h
    cases hhalted.symm.trans h
  case solo =>
    rw [launchedLots] at hj
    split at hj
    · -- it is the only one that is started, in the one place, which was free
      next hjmem =>
      have hj := hmem.1 hjmem
      obtain ⟨o, ho, hpassed⟩ := hs.passed_of_idle hhalted (by omega) hfast (i := i) (by omega)
        fun hlot ↦ absurd ((hk i).1 hlot) (by omega)
      exact ⟨o, hsettles.2 ho, hpassed⟩
    · obtain ⟨o, ho, hpassed⟩ := hs.solo hfast hone j hj i hi
      exact ⟨o, hsettles.2 ho, hpassed⟩
  case halts =>
    rw [hlaunch]
    exact hs.halts hfast i o (hsettles.1 hi) ho

/-! ## The turn of the coordinator -/

theorem Play.of_going (hs : Going p lots s) {woken : Bool} (hco : s.coordinator = .waiting woken) :
    Play p lots s := by
  rw [Play, hco]
  exact hs

/-- A place that is started is running then, so that the run has something to wait for. -/
theorem Going.untouched_of_idle (sound : p.Sound) (hs : Going p lots s)
    (hzero : (Run.launch (p.policy.parallelism.toNat - s.runningCount) s).runningCount = 0)
    (hi : i < p.components.length) :
    launchedLots s (p.policy.parallelism.toNat - s.runningCount) lots i ≠ .untouched := by
  generalize hfree : p.policy.parallelism.toNat - s.runningCount = free at hzero ⊢
  obtain ⟨k, -, hk⟩ := hs.started
  have hidle {j : Nat} {slot : Slot Rehearsal.Invocation} (hslot : (Run.launch free s).slot? j = some slot) :=
    not_isRunning_of_zero hzero hslot
  have hrunning : s.runningCount = 0 := by
    by_contra hne
    obtain ⟨j, hj⟩ := runningCount_pos.1 (Nat.pos_of_ne_zero hne)
    obtain ⟨slot, hslot, hrun⟩ := (Option.any_eq_true _ _).1 hj
    have hlaunch := launch_slot? free s j
    rw [hslot] at hlaunch
    split at hlaunch
    · cases hidle hlaunch
    · rw [hidle hlaunch] at hrun
      cases hrun
  intro h
  rw [launchedLots] at h
  split at h
  · cases h
  · have hle := (hk i).1 h
    have hpos := sound.parallelism
    have hlaunch := launch_slot? free s k
    rw [if_pos ((hs.mem_launchable hk free).2 ⟨le_rfl, by omega, by omega⟩)] at hlaunch
    cases hidle hlaunch

theorem Going.fill (sound : p.Sound) (hs : Going p lots s) :
    ∃ lots', Play p lots' (fill p.setup s) ∧ Onward s (Run.fill p.setup s) lots lots' := by
  have hfilled : ∃ lots', Going p lots' (s.filled p.setup) ∧ Onward s (Run.fill p.setup s) lots lots' ∧
      ((s.filled p.setup).runningCount = 0 → (∃ i < p.components.length, lots' i = .untouched) →
        (s.filled p.setup).cancelled = true ∨ (s.filled p.setup).halted = true) := by
    rw [State.filled]
    split
    · next h => exact ⟨lots, hs, .refl _ _ _, fun _ _ ↦ by simpa [or_comm] using h⟩
    · next h =>
      obtain ⟨hhalted, hcancelled⟩ : s.halted = false ∧ s.cancelled = false := by simpa using h
      refine ⟨_, hs.launch hhalted, fun i ↦ ?_, fun hzero huntouched ↦ ?_⟩
      · obtain ⟨k, -, hk⟩ := hs.started
        rw [launchedLots]
        split
        · next hi =>
          exact .inr ⟨(hk i).2 ((hs.mem_launchable hk _).1 hi).1, rfl, hcancelled,
            (fill_halted p.setup_isQuiet s).trans hhalted⟩
        · exact .inl rfl
      · obtain ⟨i, hi, hlot⟩ := huntouched
        exact absurd hlot (hs.untouched_of_idle sound hzero hi)
  obtain ⟨lots', hgoing, honward, huntouched⟩ := hfilled
  refine ⟨lots', ?_, honward⟩
  rw [fill_eq]
  split
  · next hzero =>
    have hclosed := hgoing.complete hzero (huntouched hzero)
    obtain ⟨new, heq, -⟩ := complete_eq p.setup_isQuiet (s.filled p.setup)
    rw [Play, show (Run.complete p.setup (s.filled p.setup)).coordinator = .done none by rw [heq]]
    exact ⟨rfl, hclosed⟩
  · exact Play.of_going ⟨hgoing.toScene.change hgoing.now le_rfl hgoing.dated rfl (fun _ _ ↦ id) .inl
      fun _ _ _ ↦ id, hgoing.halts⟩ rfl

theorem Play.going (hs : Play p lots s) (hwaiting : s.coordinator.isWaiting = true) :
    Going p lots s := by
  rw [Play] at hs
  cases hco : s.coordinator with
  | waiting woken =>
    rw [hco] at hs
    exact hs
  | draining left cause =>
    rw [hco] at hwaiting
    cases hwaiting
  | done abort =>
    rw [hco] at hwaiting
    cases hwaiting

theorem Play.closing (hs : Play p lots s) (hdraining : s.coordinator.isDraining = true) :
    Closing p lots s := by
  rw [Play] at hs
  cases hco : s.coordinator with
  | waiting woken =>
    rw [hco] at hdraining
    cases hdraining
  | draining left cause =>
    rw [hco] at hs
    exact hs.2
  | done abort =>
    rw [hco] at hdraining
    cases hdraining

/-- When the coordinator has its turn while it waits for interrupted work, all of it has ended. -/
theorem Control.drained {σ ι : Type} {s : State σ ι} {left : Nat} {cause : Option Abort}
    (hs : Control (s.before .coordinate)) (hco : s.coordinator = .draining left cause) :
    s.activeCount = 0 := by
  have hdraining := hs.controlled
  rw [State.Controlled, show (s.before .coordinate).coordinator = _ from hco] at hdraining
  have hleft := hdraining.left_eq
  have hdue := hdraining.due
  rw [State.turns_before, List.count_cons_self] at hdue
  split at hdue
  · change left = s.activeCount + _ at hleft
    omega
  · omega

/-- What the turn of the coordinator does to a scripted run. -/
inductive Coordinates (p : Production) (s s' : ScriptState) : Prop
  | fills (waiting : s.coordinator.isWaiting = true) (cancelled : s.cancelled = false)
    (abort : s.abort? p.setup = none) (eq : s' = fill p.setup (s.collected p.setup))
  | drains (line : LogLine) (waiting : s.coordinator.isWaiting = true)
    (cancelled : s.cancelled = true) (abort : s.abort? p.setup = none)
    (eq : s' = drain none ((s.collected p.setup).note (.log line)))
  | ends (line : LogLine) (waiting : s.coordinator.isWaiting = true)
    (cancelled : s.cancelled = true) (abort : s.abort? p.setup = none)
    (idle : (s.collected p.setup).runningCount = 0)
    (eq : s' = concludeDrain p.setup none ((s.collected p.setup).note (.log line)))
  | drained (draining : s.coordinator.isDraining = true) (idle : s.activeCount = 0)
    (eq : s' = concludeDrain p.setup none s)

theorem Play.coordinates (sound : p.Sound) (hcontrol : Control (s.before .coordinate))
    (hs : Play p lots s) (hdone : s.isDone = false) :
    Coordinates p s (Run.coordinate p.setup s) := by
  unfold Run.coordinate
  cases hco : s.coordinator with
  | waiting woken =>
    have hwaiting : s.coordinator.isWaiting = true := by
      rw [hco]
      rfl
    have habort := (hs.going hwaiting).abort?_eq sound
    dsimp only
    rw [collect_eq, habort]
    dsimp only
    split
    · next hcancelled =>
      split
      · next hzero => exact .ends _ hwaiting hcancelled habort hzero rfl
      · exact .drains _ hwaiting hcancelled habort rfl
    · next hcancelled => exact .fills hwaiting (by simpa using hcancelled) habort rfl
  | draining left cause =>
    have hdraining : s.coordinator.isDraining = true := by
      rw [hco]
      rfl
    obtain ⟨rfl, -⟩ : cause = none ∧ Closing p lots s := by
      rw [Play, hco] at hs
      exact hs
    exact .drained hdraining (hcontrol.drained hco) rfl
  | done abort => simp [State.isDone, hco] at hdone

/-- The coordinator has its turn. -/
theorem Play.coordinate (sound : p.Sound) (hcontrol : Control (s.before .coordinate))
    (hs : Play p lots s) (hdone : s.isDone = false) :
    ∃ lots', Play p lots' (coordinate p.setup s) ∧
      Onward s (Run.coordinate p.setup s) lots lots' := by
  have hready := hcontrol.ready hdone
  have hsame : (s.collected p.setup).cancelled = s.cancelled ∧ (s.collected p.setup).now = s.now := by
    obtain ⟨new, hnew, -⟩ := s.collected_eq p.setup
    rw [hnew]
    exact ⟨rfl, rfl⟩
  have hended {s : ScriptState} (hs : Closing p lots s) (hactive : s.activeCount = 0) :
      Play p lots (concludeDrain p.setup none s) := by
    obtain ⟨new, heq, -⟩ := concludeDrain_eq_none p.setup_isQuiet s
    rw [Play, show (concludeDrain p.setup none s).coordinator = .done none by rw [heq]]
    exact ⟨rfl, hs.concludeDrain sound hactive⟩
  generalize heq : Run.coordinate p.setup s = s'
  have h := hs.coordinates sound hcontrol hdone
  rw [heq] at h
  cases h with
  | fills waiting cancelled abort eq =>
    have hfill := ((hs.going waiting).collected sound).fill sound
    rw [eq]
    simpa only [Onward, hsame.1, hsame.2] using hfill
  | drains line waiting cancelled abort eq =>
    have hnoted := ((hs.going waiting).collected sound).note line
    have hclosing := hnoted.drain ((hready.collected p.setup).note _).fresh (hsame.1.trans cancelled)
      none
    refine ⟨lots, ?_, .refl _ _ _⟩
    rw [eq, Play, drain_eq]
    rw [drain_eq] at hclosing
    exact ⟨rfl, hclosing⟩
  | ends line waiting cancelled abort idle eq =>
    have hnoted := ((hs.going waiting).collected sound).note line
    refine ⟨lots, ?_, .refl _ _ _⟩
    rw [eq]
    exact hended (hnoted.closing (hsame.1.trans cancelled) idle) (activeCount_of_runningCount idle)
  | drained draining idle eq =>
    refine ⟨lots, ?_, .refl _ _ _⟩
    rw [eq]
    exact hended (hs.closing draining) idle

/-! ## Runs -/

theorem Told.isDone (h : Told s s') (hdone : s.isDone = false) : s'.isDone = false := by
  obtain ⟨woken, woken', -, hco⟩ | ⟨left, left', cause, -, hco⟩ | h := h.coordinator
  · rw [State.isDone, hco]
  · rw [State.isDone, hco]
  · rw [hdone] at h
    cases h

/-- A step other than the turn of the coordinator starts nothing and ends nothing. -/
theorem Play.step_silent (sound : p.Sound) (hs : Play p lots s) (hdone : s.isDone = false)
    (hsilent : s.queue.head? ≠ some .coordinate) :
    Play p lots (step p.setup s) ∧ (step p.setup s).isDone = false := by
  unfold Run.step
  split
  · next t queue hqueue =>
    rw [State.eq_before hqueue] at hs
    have hne : t ≠ .coordinate := by
      rintro rfl
      exact hsilent (by rw [hqueue]; rfl)
    cases hplace : t.place? with
    | some i =>
      have hturned := handle_turned p.setup_isQuiet hplace { s with queue := queue }
      refine ⟨hs.turned sound hplace hdone, ?_⟩
      rw [State.isDone, hturned.coordinator]
      exact hdone
    | none =>
      have htold := told_of_place_none p.setup hplace hne { s with queue := queue }
      exact ⟨(hs.of_before hplace).told hplace hne hdone, htold.isDone hdone⟩
  · next hqueue => exact ⟨hs.advance sound hqueue hdone, hdone⟩

/-- A step of a scripted run. -/
theorem Play.step (sound : p.Sound) (hcontrol : Control s) (hs : Play p lots s)
    (hdone : s.isDone = false) :
    ∃ lots', Play p lots' (step p.setup s) ∧ Onward s (Run.step p.setup s) lots lots' := by
  by_cases hsilent : s.queue.head? = some .coordinate
  · obtain ⟨queue, hqueue⟩ := List.head?_eq_some_iff.1 hsilent
    rw [Run.step, hqueue]
    rw [State.eq_before hqueue] at hs hcontrol
    exact (hs.of_before rfl).coordinate sound hcontrol hdone
  · exact ⟨lots, (hs.step_silent sound hdone hsilent).1, .refl _ _ _⟩

end Testbed.Run

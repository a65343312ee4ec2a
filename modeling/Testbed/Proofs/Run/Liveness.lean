import Testbed.Proofs.Run.Reports
import Testbed.Proofs.Run.Runs

/-!
# Runs that come to an end

A run is stuck only if some invocation waits for nothing that is going to happen.  A runner whose
invocations always set an alarm before they wait, and end when they are called back for no reason of
theirs, never leaves a run stuck, whatever the clock shows and whoever cancels it: as long as the run is
not over, a turn is pending or a timer is due.
-/

namespace Testbed

open Run Clock

/-- A reply that ends the invocation, or lets it go on as one that is `fit` to wait for its alarms, of
which at least one is set for a time to come. -/
def Reply.Stirs {ι : Type} (fit : ι → List Nat → Prop) (reply : Reply ι Ending) : Prop :=
  match reply.next with
  | .ends _ => True
  | .yields invocation => fit invocation []
  | .waits invocation keep alarms =>
    fit invocation (keep ++ alarms.map (·.1)) ∧ alarms ≠ [] ∧ ∀ alarm ∈ alarms, 0 ≤ alarm.2

/-- A runner whose invocations do not wait for what never happens. -/
structure Runner.Restless {σ ι : Type} (runner : Runner σ ι) (fit : ι → List Nat → Prop) : Prop where
  start (shared : σ) (now : Float) (component : String) (capture : Bool) :
    (runner.start shared now component capture).2.Stirs fit
  resume (shared : σ) (now : Float) (invocation : ι) (awaits : List Nat) (wake : Wake) :
    fit invocation awaits → (∀ alarm ∈ wake.rung, alarm ∈ awaits) →
      wake.rung ≠ [] ∨ wake.interrupted = true ∨ awaits = [] →
        (runner.resume shared now invocation wake).2.Stirs fit

namespace Run

variable {σ ι : Type} {setup : Setup σ ι} {fit : ι → List Nat → Prop} {i : Nat} {c : String}
  {s s' : State σ ι} {t : Turn} {w : Worker ι} {reply : Reply ι Ending}

/-! ## Invocations that wait -/

/-- What a waiting invocation was told is what it waits for, or an interruption. -/
def Stage.IsFit (fit : ι → List Nat → Prop) : Stage ι → Prop
  | .suspended invocation awaits signals =>
    fit invocation awaits ∧ (∀ alarm ∈ signals.rung, alarm ∈ awaits) ∧
      (signals.queued = true → signals.rung ≠ [] ∨ signals.interrupted = true ∨ awaits = [])
  | _ => True

def Slot.IsFit (fit : ι → List Nat → Prop) : Slot ι → Prop
  | .running w => w.stage.IsFit fit
  | _ => True

theorem Slot.IsFit.interrupted {slot : Slot ι} (h : slot.IsFit fit) : slot.interrupted.IsFit fit := by
  rcases slot with _ | ⟨_, _, _, _, _ | _ | _⟩ | _
  · trivial
  · trivial
  · exact ⟨h.1, h.2.1, fun _ ↦ .inr (.inl rfl)⟩
  · trivial
  · trivial

theorem Setup.Leads.isFit (restless : setup.runner.Restless fit) {now : Float} {w w' : Worker ι}
    (h : setup.Leads now c w reply w') (stirs : reply.Stirs fit) : w'.stage.IsFit fit := by
  induction h with
  | yields next =>
    rw [Reply.Stirs, next] at stirs
    exact ⟨stirs, by simp, fun _ ↦ .inr (.inr rfl)⟩
  | waits next =>
    rw [Reply.Stirs, next] at stirs
    exact ⟨stirs.1, by simp, nofun⟩
  | interrupted | concludes => trivial
  | again shared next assess errored left leads ih => exact ih (restless.start _ _ _ _)

theorem Setup.Answers.stirs (restless : setup.runner.Restless fit)
    (h : setup.Answers c w reply) (hw : w.stage.IsFit fit) : reply.Stirs fit := by
  cases h with
  | starts => exact restless.start _ _ _ _
  | resumes shared now stage =>
    rw [stage] at hw
    exact restless.resume _ _ _ _ _ hw.1 hw.2.1 (hw.2.2 rfl)

theorem Setup.keeps_fit (restless : setup.runner.Restless fit) :
    setup.Keeps fun _ slot ↦ slot.IsFit fit where
  change c slot slot' h hs := by
    cases h with
    | launches => trivial
    | goes now answers leads => exact leads.isFit restless (answers.stirs restless hs)
    | rings alarm stage awaited =>
      rw [Slot.IsFit, stage] at hs
      refine ⟨hs.1, fun a ha ↦ ?_, fun _ ↦ .inl (by simp)⟩
      obtain ha | ha := List.mem_append.1 ha
      · exact hs.2.1 a ha
      · rwa [List.mem_singleton.1 ha]
    | expires => exact Slot.IsFit.interrupted (show (Slot.running _).IsFit fit from hs)
    | settles =>
      unfold Slot.settle
      split
      · trivial
      · exact hs
  closes c slot slot' h hs := by
    cases h with
    | interrupts => exact hs.interrupted
    | drains =>
      obtain hsame | ⟨o, hdrained, -⟩ := slot.drained_cases c
      · rwa [hsame]
      · rw [hdrained]
        trivial
    | skips => cases slot <;> exact hs

/-! ## What waiting work waits for -/

/-- Work that waits has its turn queued, or waits for an alarm that is going to ring. -/
def State.Expects (s : State σ ι) (i : Nat) : Prop :=
  ∀ w invocation awaits signals, s.slot? i = some (.running w) →
    w.stage = .suspended invocation awaits signals →
      signals.queued = true ∧ .work i ∈ s.turns ∨
      signals.queued = false ∧ ∃ alarm ∈ awaits, .ring i w.attempt alarm ∈ s.turns ∨
        ∃ t ∈ s.timers, t.turn = .ring i w.attempt alarm ∧ IsInstant t.due

theorem State.Expects.of_finished {f : Finish} (hslot : s.slot? i = some (.running w))
    (hstage : w.stage = .finished f) : s.Expects i := by
  intro w' invocation awaits signals hslot' hstage'
  obtain rfl : w = w' := by simpa [hslot] using hslot'
  cases hstage.symm.trans hstage'

/-- The timers of other places and the turns that were pending stay. -/
theorem State.Expects.mono (hs : s.Expects i)
    (hslot : ∀ w invocation awaits signals, s'.slot? i = some (.running w) →
      w.stage = .suspended invocation awaits signals → s.slot? i = some (.running w))
    (hturns : ∀ u ∈ s.turns, u.place? = some i → u ∈ s'.turns)
    (htimers : ∀ u ∈ s.timers, u.turn.place? = some i → u ∈ s'.timers ∨ u.turn ∈ s'.turns) :
    s'.Expects i := by
  intro w invocation awaits signals hslot' hstage
  obtain ⟨hqueued, hwork⟩ | ⟨hqueued, alarm, hawaited, hring⟩ :=
    hs w invocation awaits signals (hslot w _ _ _ hslot' hstage) hstage
  · exact .inl ⟨hqueued, hturns _ hwork rfl⟩
  · refine .inr ⟨hqueued, alarm, hawaited, ?_⟩
    obtain hring | ⟨u, hu, hturn, hdue⟩ := hring
    · exact .inl (hturns _ hring rfl)
    · obtain hu | hu := htimers u hu (by rw [hturn]; rfl)
      · exact .inr ⟨u, hu, hturn, hdue⟩
      · exact .inl (hturn ▸ hu)

/-! ## Attempts -/

theorem Dated.append {timers timers' : List Timer} (h : Dated timers) (h' : Dated timers') :
    Dated (timers ++ timers') :=
  fun t ht ↦ (List.mem_append.1 ht).elim (h t) (h' t)

theorem Dated.filter {timers : List Timer} (h : Dated timers) (p : Timer → Bool) :
    Dated (timers.filter p) :=
  fun t ht ↦ h t (List.mem_filter.1 ht).1

/-- What a turn of work leaves: dated timers, and something to wait for. -/
structure Expectant (i : Nat) (s s' : State σ ι) : Prop where
  now : s'.now = s.now
  dated : Dated s'.timers
  expects : s'.Expects i

theorem finish_expectant {slot : Slot ι} (hslot : s.slot? i = some slot) (hdated : Dated s.timers)
    (w : Worker ι) (f : Finish) : Expectant i s (finish i w f s) where
  now := rfl
  dated := hdated
  expects := .of_finished (finish_running hslot w f) rfl

/-- The alarms of an invocation ring at instants. -/
theorem waits_expectant {slot : Slot ι} (hslot : s.slot? i = some slot) (hnow : IsInstant s.now)
    (hdated : Dated s.timers) {v : ι} (keep : List Nat) {alarms : List (Nat × Float)}
    (hne : alarms ≠ []) (hdelays : ∀ alarm ∈ alarms, 0 ≤ alarm.2) :
    Expectant i s
      ((alarms.foldl (fun s (alarm, delay) ↦ s.set delay (.ring i w.attempt alarm)) s).setWorker i
        { w with stage := .suspended v (keep ++ alarms.map (·.1)) {} }) := by
  rw [setAll_eq]
  have hdue {alarm : Nat × Float} (h : alarm ∈ alarms) : IsInstant (s.now + alarm.2) :=
    (isInstant_add hnow (hdelays alarm h)).1
  refine ⟨rfl, hdated.append fun t ht ↦ ?_, fun w' v' awaits signals hslot' hstage ↦ ?_⟩
  · obtain ⟨alarm, halarm, rfl⟩ := List.mem_map.1 ht
    exact .inl (hdue halarm)
  · have hset := setWorker_slot? (s := { s with timers := s.timers ++ alarms.map fun (alarm, delay) ↦
      ⟨s.now + delay, .ring i w.attempt alarm⟩ }) hslot
        { w with stage := .suspended v (keep ++ alarms.map (·.1)) {} }
    rw [hset] at hslot'
    cases hslot'
    cases hstage
    obtain ⟨alarm, halarm⟩ := List.exists_mem_of_ne_nil alarms hne
    refine .inr ⟨rfl, alarm.1, List.mem_append_right _ (List.mem_map_of_mem halarm), .inr ?_⟩
    exact ⟨_, List.mem_append_right _ (List.mem_map_of_mem halarm), rfl, hdue halarm⟩

/-- An attempt that begins leaves what its reply leaves. -/
theorem attempt_expectant_of (quiet : setup.IsQuiet) (restless : setup.runner.Restless fit) {left : Nat}
    {slot : Slot ι} (hslot : s.slot? i = some slot) (hnow : IsInstant s.now) (hdated : Dated s.timers)
    (hreplied : ∀ reply (s : State σ ι), s.slot? i = some slot → IsInstant s.now → Dated s.timers →
      reply.Stirs fit → Expectant i s (replied setup i c left w reply s)) :
    Expectant i s (attempt setup i c left w s) := by
  obtain ⟨s₁, hremarked, heq⟩ := attempt_eq_replied quiet left w s (i := i) (c := c)
  obtain ⟨new, rfl, -⟩ := hremarked
  generalize hs₁ : { s with journal := new ++ s.journal } = s₁ at heq
  obtain ⟨hnow₁, -, hplaces, -⟩ := setLimit_frame setup i w.attempt s₁
  have hattempting := hreplied _ (s₁.attempting setup i c w)
    (by rw [State.slot?, State.attempting, hplaces, ← hs₁]; exact hslot)
    (by rw [State.attempting, hnow₁, ← hs₁]; exact hnow)
    (Dated.setLimit (by rw [← hs₁]; exact hnow) (by rw [← hs₁]; exact hdated) i w.attempt)
    (restless.start s₁.shared s₁.now c setup.policy.captureOutput)
  rw [heq]
  exact ⟨hattempting.now.trans (hnow₁.trans (by rw [← hs₁])), hattempting.dated, hattempting.expects⟩

/-- Whatever a turn makes of a reply, work that waits then waits for something: by induction on the
attempts left. -/
theorem replied_expectant (quiet : setup.IsQuiet) (restless : setup.runner.Restless fit) {left : Nat}
    {slot : Slot ι} (hslot : s.slot? i = some slot) (hnow : IsInstant s.now) (hdated : Dated s.timers)
    (stirs : reply.Stirs fit) : Expectant i s (replied setup i c left w reply s) := by
  induction left using Nat.strong_induction_on generalizing w reply s with
  | _ left ih =>
    rw [replied, apply, State.noteAll_eq]
    rw [Reply.Stirs] at stirs
    dsimp only
    cases hnext : reply.next with
    | yields v =>
      refine ⟨rfl, hdated.filter _, fun w' v' awaits signals hslot' hstage ↦ ?_⟩
      have hset := setWorker_slot? hslot { w with stage := .suspended v [] { queued := true } }
      cases hset.symm.trans hslot'
      cases hstage
      exact .inl ⟨rfl, by rw [State.turns_enqueue]; simp⟩
    | waits v keep alarms =>
      rw [hnext] at stirs
      have hwaits := waits_expectant (w := w) (v := v) (s := { s with
        timers := dropTimers i keep s.timers
        journal := (reply.notes.map fun n ↦ ⟨s.now, n⟩).reverse ++ s.journal }) hslot hnow
          (hdated.filter _) keep stirs.2.1 stirs.2.2
      exact ⟨hwaits.now, hwaits.dated, hwaits.expects⟩
    | ends ending =>
      obtain ⟨s₁, ⟨new, hs₁, -⟩, hends⟩ := endAttempt_endsIn quiet left w ending
        { s with
          timers := dropAllTimers i s.timers
          journal := (reply.notes.map fun n ↦ ⟨s.now, n⟩).reverse ++ s.journal } (i := i) (c := c)
      have hslot₁ : s₁.slot? i = some slot := hs₁ ▸ hslot
      have hnow₁ : s₁.now = s.now := hs₁ ▸ rfl
      have hdated₁ : Dated s₁.timers := hs₁ ▸ hdated.filter _
      dsimp only
      generalize endAttempt setup i c (further setup i c left) w ending _ = s' at hends
      suffices h : Expectant i s₁ s' from ⟨h.now.trans hnow₁, h.dated, h.expects⟩
      cases hends with
      | interrupted => exact finish_expectant hslot₁ hdated₁ _ _
      | concludes => exact finish_expectant hslot₁ hdated₁ _ _
      | @again answer l assess errored more =>
        subst more
        exact attempt_expectant_of quiet restless hslot₁ (hnow₁ ▸ hnow) hdated₁
          fun _ _ hslot hnow hdated stirs ↦ ih l (Nat.lt_succ_self l) hslot hnow hdated stirs

/-! ## Turns of a place -/

/-- A turn that has been taken is no longer waited for, unless it makes the work go on. -/
theorem State.Expects.of_before (hs : (s.before t).Expects i)
    (ht : ∀ w v awaits signals, s.slot? i = some (.running w) → w.stage = .suspended v awaits signals →
      (signals.queued = true → t ≠ .work i) ∧ ∀ alarm ∈ awaits, t ≠ .ring i w.attempt alarm) :
    s.Expects i := by
  intro w v awaits signals hslot hstage
  obtain ⟨hwork, hring⟩ := ht w v awaits signals hslot hstage
  obtain ⟨hqueued, hturn⟩ | ⟨hqueued, alarm, halarm, hturn⟩ := hs w v awaits signals hslot hstage
  · exact .inl ⟨hqueued, State.mem_of_before (hwork hqueued) hturn⟩
  · exact .inr ⟨hqueued, alarm, halarm, hturn.imp_left (State.mem_of_before (hring alarm halarm))⟩

theorem work_expectant (quiet : setup.IsQuiet) (restless : setup.runner.Restless fit)
    (hnow : IsInstant s.now) (hdated : Dated s.timers)
    (hfit : ∀ slot, s.slot? i = some slot → slot.IsFit fit) (hs : (s.before (.work i)).Expects i) :
    Expectant i s (work setup i s) := by
  have hworks := work_works setup i s
  generalize work setup i s = s' at hworks
  cases hworks with
  | idle unqueued =>
    refine ⟨rfl, hdated, hs.of_before fun w v awaits signals hslot hstage ↦ ⟨fun hqueued ↦ ?_, nofun⟩⟩
    obtain ⟨c, hplace⟩ := State.slot?_eq_some.1 hslot
    obtain ⟨queued, rung, interrupted⟩ := signals
    obtain rfl : queued = true := hqueued
    exact absurd hstage (unqueued _ _ _ _ _ _ hplace)
  | starts place stage =>
    exact attempt_expectant_of quiet restless (State.slot?_eq_some.2 ⟨_, place⟩) hnow hdated
      fun _ _ ↦ replied_expectant quiet restless
  | @resumes c w v awaits rung interrupted place stage =>
    have hslot : s.slot? i = some (.running w) := State.slot?_eq_some.2 ⟨c, place⟩
    have hw : w.stage.IsFit fit := hfit _ hslot
    rw [stage] at hw
    have hstirs := restless.resume s.shared s.now v awaits ⟨rung, interrupted⟩ hw.1 hw.2.1 (hw.2.2 rfl)
    generalize setup.runner.resume s.shared s.now v ⟨rung, interrupted⟩ = resumed at hstirs
    have hreplied (left : Nat) : Expectant i { s with shared := resumed.1 }
        (replied setup i c left w resumed.2 { s with shared := resumed.1 }) :=
      replied_expectant quiet restless hslot hnow hdated hstirs
    have hdone := hreplied (attemptsLeft setup.policy w.attempt)
    exact ⟨hdone.now, hdone.dated, hdone.expects⟩

/-- Work that was told something has its turn queued. -/
theorem told_expects {w' : Worker ι} {v : ι} {awaits : List Nat} {signals signals' : Signals}
    (h : s.worker? i = some w) (hstage : w'.stage = .suspended v awaits signals')
    (hqueued : signals'.queued = true) (hturn : signals.queued = true → .work i ∈ s.turns) :
    (if signals.queued then s.setWorker i w' else (s.setWorker i w').enqueue (.work i)).Expects i := by
  have hset := setWorker_slot? (State.worker?_eq_some.1 h) w'
  split
  · next hq =>
    intro w₁ v₁ awaits₁ signals₁ hslot₁ hstage₁
    cases hset.symm.trans hslot₁
    cases hstage.symm.trans hstage₁
    exact .inl ⟨hqueued, hturn hq⟩
  · intro w₁ v₁ awaits₁ signals₁ hslot₁ hstage₁
    cases hset.symm.trans hslot₁
    cases hstage.symm.trans hstage₁
    exact .inl ⟨hqueued, by rw [State.turns_enqueue]; simp⟩

/-- Work whose turn is queued, as far as it waits. -/
theorem State.Expects.work_mem (hs : s.Expects i) (h : s.worker? i = some w) {v : ι}
    {awaits : List Nat} {signals : Signals} (hstage : w.stage = .suspended v awaits signals)
    (hqueued : signals.queued = true) : .work i ∈ s.turns := by
  obtain ⟨-, hturn⟩ | ⟨hidle, -⟩ := hs w v awaits signals (State.worker?_eq_some.1 h) hstage
  · exact hturn
  · rw [hqueued] at hidle
    cases hidle

theorem ring_expectant {n alarm : Nat} (hdated : Dated s.timers)
    (hs : (s.before (.ring i n alarm)).Expects i) : Expectant i s (ring i n alarm s) := by
  have hignored (h : ∀ w v awaits signals, s.slot? i = some (.running w) →
      w.stage = .suspended v awaits signals → ¬ (w.attempt = n ∧ alarm ∈ awaits)) :
      Expectant i s s :=
    ⟨rfl, hdated, hs.of_before fun w v awaits signals hslot hstage ↦ ⟨nofun, fun a ha heq ↦ by
      cases heq
      exact h w v awaits signals hslot hstage ⟨rfl, ha⟩⟩⟩
  unfold ring
  split
  · next w hw =>
    split
    · next v awaits signals hstage =>
      split
      · refine ⟨by split <;> rfl, by split <;> exact hdated, told_expects hw rfl rfl fun hqueued ↦ ?_⟩
        have hwork := hs.work_mem hw hstage hqueued
        exact State.mem_of_before (t := .ring i n alarm) nofun hwork
      · next hnot =>
        refine hignored fun w' v' awaits' signals' hslot' hstage' ↦ ?_
        cases (State.worker?_eq_some.1 hw).symm.trans hslot'
        cases hstage.symm.trans hstage'
        exact hnot
    · next hnot =>
      refine hignored fun w' v' awaits' signals' hslot' hstage' ↦ ?_
      cases (State.worker?_eq_some.1 hw).symm.trans hslot'
      exact absurd hstage' (hnot _ _ _)
  · next hw =>
    refine hignored fun w' v' awaits' signals' hslot' hstage' ↦ ?_
    rw [State.worker?_eq_some.2 hslot'] at hw
    cases hw

theorem interrupt_expects (hs : s.Expects i) : (interrupt i s).Expects i := by
  unfold interrupt
  split
  · next hw =>
    split
    · next hstage => exact told_expects hw rfl rfl (hs.work_mem hw hstage)
    · exact hs
  · exact hs

theorem expire_expectant {n : Nat} (hdated : Dated s.timers)
    (hs : (s.before (.expire i n)).Expects i) : Expectant i s (expire i n s) := by
  have hs : s.Expects i := hs.of_before fun _ _ _ _ _ _ ↦ ⟨nofun, nofun⟩
  unfold expire
  split
  · next w hw =>
    split
    · next v awaits signals hstage =>
      split
      · have hset := setWorker_slot? (State.worker?_eq_some.1 hw) { w with expired := true }
        refine ⟨(interrupt_moves i _).now, ?_, interrupt_expects ?_⟩
        · rw [interrupt_eq]
          exact hdated
        · intro w' v' awaits' signals' hslot' hstage'
          cases hset.symm.trans hslot'
          exact hs w v' awaits' signals' (State.worker?_eq_some.1 hw) hstage'
      · exact ⟨rfl, hdated, hs⟩
    · exact ⟨rfl, hdated, hs⟩
  · exact ⟨rfl, hdated, hs⟩

/-! ## Turns of the coordinator -/

/-- Work that waits has waited before. -/
def Lingers (s s' : State σ ι) : Prop :=
  ∀ i w v awaits signals, s'.slot? i = some (.running w) → w.stage = .suspended v awaits signals →
    s.slot? i = some (.running w)

namespace Lingers

theorem of_places {f : Place ι → Slot ι} (h : s'.places = s.places.map fun p ↦ { p with slot := f p })
    (hf : ∀ p w v awaits signals, f p = .running w → w.stage = .suspended v awaits signals →
      p.slot = .running w) : Lingers s s' := by
  intro i w v awaits signals hslot hstage
  rw [State.slot?, h, List.getElem?_map, Option.map_map] at hslot
  obtain ⟨p, hp, hfp⟩ := Option.map_eq_some_iff.1 hslot
  exact State.slot?_eq_some.2 ⟨p.component, by rw [hp, ← hf p w v awaits signals hfp hstage]⟩

theorem collected (setup : Setup σ ι) (s : State σ ι) : Lingers s (s.collected setup) := by
  obtain ⟨k, hslots, -⟩ := s.collected_slot? setup
  intro i w v awaits signals hslot hstage
  rw [hslots] at hslot
  split at hslot
  · obtain ⟨p, hp, hsettled⟩ := Option.map_eq_some_iff.1 hslot
    obtain ⟨q, hq, rfl⟩ := Option.map_eq_some_iff.1 hp
    refine State.slot?_eq_some.2 ⟨q.component, ?_⟩
    rw [Place.settled, Slot.settle] at hsettled
    split at hsettled
    · cases hsettled
    · rw [hq, ← hsettled]
  · exact hslot

theorem filled (setup : Setup σ ι) (s : State σ ι) : Lingers s (s.filled setup) := by
  intro i w v awaits signals hslot hstage
  rw [State.filled] at hslot
  split at hslot
  · exact hslot
  · rw [launch_slot?] at hslot
    split at hslot
    · cases hslot
      cases hstage
    · exact hslot

theorem complete (quiet : setup.IsQuiet) (s : State σ ι) : Lingers s (complete setup s) := by
  obtain ⟨new, heq, -⟩ := complete_eq quiet s
  rw [heq]
  refine of_places (f := fun p ↦ p.slot.skip p.component (skipReason s.cancelled))
    (List.map_congr_left fun p _ ↦ p.skip_eq _) fun p w v awaits signals hp hstage ↦ ?_
  rcases p with ⟨_, _ | _ | _⟩
  · cases hp
  · exact hp
  · exact hp

theorem concludeDrain (quiet : setup.IsQuiet) (cause : Option Abort) (s : State σ ι) :
    Lingers s (concludeDrain setup cause s) := by
  cases cause with
  | none =>
    obtain ⟨new, heq, -⟩ := concludeDrain_eq_none quiet s
    rw [heq]
    refine of_places (f := fun p ↦
      (p.slot.drained p.component).skip p.component (skipReason s.cancelled))
      (List.map_congr_left fun p _ ↦ by rw [Place.skip_eq, Place.drained_eq])
      fun p w v awaits signals hp hstage ↦ ?_
    -- nothing is left of the work
    rcases p with ⟨_, _ | ⟨_, _, _, _, _ | _ | _ | _ | _⟩ | _⟩ <;> cases hp
  | some abort =>
    obtain ⟨new, heq, -⟩ := concludeDrain_eq_some quiet abort s
    rw [heq]
    exact fun _ _ _ _ _ hslot _ ↦ hslot

end Lingers

theorem State.Expects.coordinated (hs : s.Expects i) (h : Coordinated s s') (hlingers : Lingers s s') :
    s'.Expects i := by
  obtain ⟨new, hnew, -⟩ := h.next
  refine hs.mono (fun w v awaits signals ↦ hlingers i w v awaits signals) (fun u hu _ ↦ ?_)
    fun u hu _ ↦ .inl (h.timers ▸ hu)
  rw [State.turns, h.queue, hnew, ← List.append_assoc]
  exact List.mem_append_left _ hu

/-- Interrupted work has its turn queued. -/
theorem State.Expects.drain (hs : s.Expects i) (cause : Option Abort) : (drain cause s).Expects i := by
  rw [drain_eq]
  intro w v awaits signals hslot hstage
  rw [State.slot?, List.getElem?_map, Option.map_map] at hslot
  obtain ⟨p, hp, hinterrupted⟩ := Option.map_eq_some_iff.1 hslot
  obtain ⟨c, slot⟩ := p
  rw [State.turns]
  rcases slot with _ | ⟨started, attempt, outstanding, expired, _ | ⟨v', awaits', queued, rung, told⟩ | _⟩ | _
  · cases hinterrupted
  · cases hinterrupted
    cases hstage
  · have hslot' : s.slot? i = some (.running
        ⟨started, attempt, outstanding, expired, .suspended v' awaits' ⟨queued, rung, told⟩⟩) :=
      State.slot?_eq_some.2 ⟨c, hp⟩
    cases hinterrupted
    cases hstage
    refine .inl ⟨rfl, ?_⟩
    cases queued with
    | true =>
      have hwork := hs.work_mem (State.worker?_eq_some.2 hslot') rfl rfl
      rw [← List.append_assoc, ← List.append_assoc]
      exact List.mem_append_left _ (List.mem_append_left _ hwork)
    | false =>
      refine List.mem_append_right _ (List.mem_append_left _ (List.mem_append_right _ ?_))
      exact List.mem_map_of_mem (State.mem_placesWith.2 ⟨_, hslot', rfl⟩)
  · cases hinterrupted
    cases hstage
  · cases hinterrupted

theorem Conducts.expects (quiet : setup.IsQuiet) (h : Conducts setup s s') (hs : s.Expects i) :
    s'.Expects i := by
  have hcollected : (s.collected setup).Expects i :=
    hs.coordinated (.collected setup s) (.collected setup s)
  have hnoted : ((s.collected setup).note (s.collected setup).cancelNote).Expects i := hcollected
  have hfilled : ((s.collected setup).filled setup).Expects i :=
    hcollected.coordinated (.filled setup _) (.filled setup _)
  cases h with
  | waits => exact hfilled
  | completes => exact hfilled.coordinated (.complete quiet _) (.complete quiet _)
  | aborts => exact hcollected.drain _
  | drains => exact hnoted.drain _
  | ends => exact hnoted.coordinated (.concludeDrain quiet _ _) (.concludeDrain quiet _ _)
  | drained => exact hs.coordinated (.concludeDrain quiet _ _) (.concludeDrain quiet _ _)
  | rests => exact hs

/-! ## Steps -/

/-- A run whose waiting work has something to wait for. -/
structure Stirring (fit : ι → List Nat → Prop) (s : State σ ι) : Prop where
  now : IsInstant s.now
  dated : Dated s.timers
  fit : s.All fun _ slot ↦ slot.IsFit fit
  expects : ∀ i, s.Expects i

namespace Stirring

theorem turned (quiet : setup.IsQuiet) (restless : setup.runner.Restless fit)
    (hs : Stirring fit (s.before t)) (ht : t.place? = some i) : Stirring fit (handle setup t s) := by
  have hturned := handle_turned quiet ht s
  have hexpectant : Expectant i s (handle setup t s) := by
    cases t with
    | work j =>
      cases ht
      refine work_expectant quiet restless hs.now hs.dated (fun slot hslot ↦ ?_) (hs.expects i)
      obtain ⟨c, hc⟩ := State.slot?_eq_some.1 hslot
      exact hs.fit _ (List.mem_of_getElem? hc)
    | expire j n =>
      cases ht
      exact expire_expectant hs.dated (hs.expects i)
    | ring j n alarm =>
      cases ht
      exact ring_expectant hs.dated (hs.expects i)
    | cancel | watch | notice | coordinate => cases ht
  refine ⟨hexpectant.now ▸ hs.now, hexpectant.dated, ?_, fun j ↦ ?_⟩
  · have hall : s.All fun _ slot ↦ slot.IsFit fit := hs.fit
    exact hall.turned (Setup.keeps_fit restless).change hturned (handle_changed quiet ht s)
  · by_cases hj : j = i
    · rw [hj]
      exact hexpectant.expects
    · have hother : t.place? ≠ some j := fun h ↦ hj (Option.some_inj.1 (h.symm.trans ht))
      have hbefore : s.Expects j := (hs.expects j).of_before fun _ _ _ _ _ _ ↦
        ⟨fun _ h ↦ hother (h ▸ rfl), fun _ _ h ↦ hother (h ▸ rfl)⟩
      obtain ⟨new, hnew, -⟩ := hturned.turns
      refine hbefore.mono (fun w v awaits signals hslot _ ↦ (hturned.slot?_ne hj) ▸ hslot)
        (fun u hu _ ↦ hnew ▸ List.mem_append_left _ hu) fun u hu hplace ↦ .inl ?_
      have hmem : u ∈ s.timers.filter (·.turn.place? ≠ some i) :=
        List.mem_filter.2 ⟨hu, by simpa [hplace] using hj⟩
      rw [← hturned.timers] at hmem
      exact (List.mem_filter.1 hmem).1

/-- A turn that tells the coordinator something. -/
theorem told (hs : Stirring fit (s.before t)) (ht : t.place? = none) (hne : t ≠ .coordinate) :
    Stirring fit (handle setup t s) := by
  have h := handle_tells setup ht hne s
  have hother (j : Nat) : t.place? ≠ some j := ht ▸ Option.some_ne_none j |>.symm
  refine ⟨h.now ▸ hs.now, h.timers ▸ hs.dated, ?_, fun j ↦ ?_⟩
  · have hall : s.All fun _ slot ↦ slot.IsFit fit := hs.fit
    exact hall.of_places h.places
  · have hbefore : s.Expects j := (hs.expects j).of_before fun _ _ _ _ _ _ ↦
      ⟨fun _ h ↦ hother j (h ▸ rfl), fun _ _ h ↦ hother j (h ▸ rfl)⟩
    exact hbefore.mono (fun w v awaits signals hslot _ ↦ (h.slot? j) ▸ hslot)
      (fun u hu _ ↦ h.mem_turns hu) fun u hu _ ↦ .inl (h.timers ▸ hu)

theorem conducted (quiet : setup.IsQuiet) (restless : setup.runner.Restless fit)
    (hs : Stirring fit (s.before .coordinate)) : Stirring fit (coordinate setup s) := by
  have hframe := Coordinated.coordinate quiet s
  have hall : s.All fun _ slot ↦ slot.IsFit fit := hs.fit
  refine ⟨hframe.now ▸ hs.now, hframe.timers ▸ hs.dated, hall.conducts quiet (coordinate_conducts setup s)
    (Setup.keeps_fit restless).steers fun _ ↦ (Setup.keeps_fit restless).closes, fun i ↦ ?_⟩
  exact (coordinate_conducts setup s).expects quiet
    ((hs.expects i).of_before fun _ _ _ _ _ _ ↦ ⟨nofun, nofun⟩)

theorem advance (hs : Stirring fit s) (hqueue : s.queue = []) : Stirring fit s.advance := by
  have hinstant : IsInstant s.nextInstant := (nextInstant_ticks hs.now hs.dated).instant'
  refine ⟨hinstant, ?_, hs.fit, fun i ↦ (hs.expects i).mono (fun _ _ _ _ hslot _ ↦ hslot) ?_ ?_⟩
  all_goals simp only [State.advance, State.turns, List.partition_eq_filter_filter, hqueue]
  · exact hs.dated.filter _
  · intro u hu _
    simpa using Or.inl hu
  · intro u hu _
    by_cases hdue : u.due ≤ s.nextInstant
    · refine .inr (List.mem_append_left _ (List.mem_append_right _ (List.mem_map_of_mem ?_)))
      exact List.mem_filter.2 ⟨hu, by simpa using hdue⟩
    · exact .inl (List.mem_filter.2 ⟨hu, by simpa using hdue⟩)

theorem step (quiet : setup.IsQuiet) (restless : setup.runner.Restless fit) (hs : Stirring fit s) :
    Stirring fit (step setup s) := by
  unfold Run.step
  split
  · next t queue hqueue =>
    rw [State.eq_before hqueue] at hs
    obtain ⟨i, ht⟩ | rfl | ⟨ht, hne⟩ := t.kinds
    · exact hs.turned quiet restless ht
    · exact hs.conducted quiet restless
    · exact hs.told ht hne
  · next hqueue => exact hs.advance hqueue

/-- Work that is underway has a turn pending, or an alarm set. -/
theorem turns_or_alarm_of_active (hs : Stirring fit s) (hactive : s.isActive i = true)
    (hfresh : s.isFresh i = true → s.turns ≠ []) :
    s.turns ≠ [] ∨ ∃ t ∈ s.timers, IsInstant t.due := by
  obtain ⟨slot, hslot, hactive⟩ := (Option.any_eq_true _ _).1 hactive
  obtain ⟨w, rfl, hunfinished⟩ := Slot.isActive_iff.1 hactive
  cases hstage : w.stage with
  | fresh => exact .inl (hfresh (by rw [State.isFresh, hslot]; exact Slot.isFresh_running.2 hstage))
  | finished f => exact absurd hstage (hunfinished f)
  | suspended v awaits signals =>
    obtain ⟨-, hturn⟩ | ⟨-, alarm, -, hturn | ⟨t, ht, -, hdue⟩⟩ :=
      hs.expects i w v awaits signals hslot hstage
    · exact .inl (List.ne_nil_of_mem hturn)
    · exact .inl (List.ne_nil_of_mem hturn)
    · exact .inr ⟨t, ht, hdue⟩

/-- A run that is not over has something to do, now or later. -/
theorem turns_or_alarm (hcontrol : Control s) (hs : Stirring fit s) (hdone : s.isDone = false) :
    s.turns ≠ [] ∨ ∃ t ∈ s.timers, IsInstant t.due := by
  have hc := hcontrol.controlled
  rw [State.Controlled] at hc
  split at hc
  · obtain ⟨i, hrunning⟩ := hc.running
    obtain ⟨slot, hslot, hrun⟩ := (Option.any_eq_true _ _).1 hrunning
    rw [Slot.isRunning_eq, Bool.or_eq_true] at hrun
    obtain hactive | hfinished := hrun
    · have hi : s.isActive i = true := by rwa [State.isActive, hslot]
      refine hs.turns_or_alarm_of_active hi fun hfresh ↦ ?_
      obtain ⟨pre, post, hturns, hpre, -⟩ := hc.fresh
      exact hturns ▸ List.append_ne_nil_of_left_ne_nil (List.ne_nil_of_mem (hpre i hfresh)) post
    · obtain ⟨f, hf⟩ := Option.isSome_iff_exists.1 hfinished
      exact .inl (List.ne_nil_of_mem (hc.noticed i f (by rw [State.finish?, hslot]; exact hf)))
  · exact .inl (List.ne_nil_of_mem (List.count_pos_iff.1 (hc.due ▸ Nat.one_pos)))
  · next left cause hco =>
    have hdue := hc.due
    have hleft := hc.left_eq
    by_cases hturns : s.turns = []
    · have hpos : 0 < s.activeCount := by
        rw [hturns, List.count_nil] at hdue hleft
        by_contra hzero
        rw [if_pos (by omega)] at hdue
        cases hdue
      obtain ⟨p, hp, hactive⟩ := List.countP_pos_iff.1 hpos
      obtain ⟨i, hi⟩ := List.mem_iff_getElem?.1 hp
      refine hs.turns_or_alarm_of_active (i := i) ?_ fun hfresh ↦ by simp [hc.fresh i] at hfresh
      rw [State.isActive, State.slot?, hi]
      exact hactive
    · exact .inl hturns
  · next hco => simp [State.isDone, hco] at hdone

theorem isLively (hcontrol : Control s) (hs : Stirring fit s) (hdone : s.isDone = false) :
    s.IsLively := by
  obtain h | ⟨t, ht, hinstant⟩ := hs.turns_or_alarm hcontrol hdone
  · exact .inl h
  · by_cases hturns : s.turns = []
    · obtain ⟨-, hnext⟩ := List.append_eq_nil_iff.1 hturns
      exact .inr (exists_due hs.now hs.dated hnext ht hinstant)
    · exact .inl hturns

theorem begin (quiet : setup.IsQuiet) (restless : setup.runner.Restless fit)
    {cancellation : Cancellation} {now : Float} (hnow : IsInstant now)
    (hdelays : ∀ delay ∈ cancellation.delays, 0 ≤ delay) (shared : σ) (components : List String) :
    Stirring fit (begin setup cancellation now shared components) := by
  have hframe := Coordinated.fill quiet (State.opening setup cancellation now shared components)
  have hopening (i : Nat) : (State.opening setup cancellation now shared components).Expects i := by
    intro w v awaits signals hslot
    obtain ⟨c, hc⟩ := State.slot?_eq_some.1 hslot
    obtain ⟨d, -, hd⟩ := List.mem_map.1 (List.mem_of_getElem? hc)
    cases hd
  have hfilled (i : Nat) := (hopening i).coordinated (.filled setup _) (.filled setup _)
  rw [begin_eq]
  refine ⟨hframe.now ▸ hnow, hframe.timers ▸ fun t ht ↦ ?_, ?_, fun i ↦ ?_⟩
  · obtain ⟨delay, hdelay, rfl⟩ := List.mem_map.1 ht
    exact .inl (isInstant_add hnow (hdelays delay hdelay)).1
  · exact (Setup.keeps_fit restless).begin quiet (fun _ ↦ trivial) cancellation now shared components
  · rw [fill_eq]
    split
    · exact (hfilled i).coordinated (.complete quiet _) (.complete quiet _)
    · exact hfilled i

end Stirring

/-- A run whose invocations wait for nothing that never happens is over in the turns granted to it. -/
theorem final_isDone_of_restless {budget : ι → Nat} (quiet : setup.IsQuiet)
    (frugal : setup.runner.Frugal budget) (restless : setup.runner.Restless fit)
    {cancellation : Cancellation} {now : Float} (hnow : IsInstant now)
    (hdelays : ∀ delay ∈ cancellation.delays, 0 ≤ delay) (shared : σ) (components : List String) :
    (final setup cancellation now shared components).isDone = true :=
  isDone_of_lively quiet frugal (P := Stirring fit) (fun _ hcontrol hs hdone ↦ hs.isLively hcontrol hdone)
    (fun _ _ hs _ ↦ hs.step quiet restless) (.begin quiet _ _ _ _)
    (.begin quiet restless hnow hdelays shared components) (potential_begin budget quiet)

end Run

end Testbed

import Testbed.Proofs.Run.Coordination

/-!
# Recast runs

Two runs can differ in what their runners share, in cancellations that are still to come and in what
was noted before, and take the same turns all the same.  One of them is the other one recast.
-/

namespace Testbed.Run

variable {σ τ ι : Type}

/-- How a run is recast: what its runner shares is read in another way, cancellations are set before
all other timers, and the journal goes on from an earlier one. -/
structure Recast (σ τ : Type) where
  shared : σ → τ
  cancels : List Float
  past : Journal

/-- The timers of the cancellations. -/
def Recast.timers (r : Recast σ τ) : List Timer :=
  r.cancels.map fun due ↦ ⟨due, .cancel⟩

def State.recast (r : Recast σ τ) (s : State σ ι) : State τ ι where
  now := s.now
  timers := r.timers ++ s.timers
  queue := s.queue
  next := s.next
  shared := r.shared s.shared
  places := s.places
  halted := s.halted
  cancelled := s.cancelled
  watching := s.watching
  coordinator := s.coordinator
  epoch := s.epoch
  journal := s.journal ++ r.past

/-- The attempts at components are the same, as long as what is shared is read in another way. -/
structure Setup.Recasts (f : σ → τ) (setup : Setup σ ι) (setup' : Setup τ ι) : Prop where
  start (shared : σ) (now : Float) (component : String) (capture : Bool) :
    setup'.runner.start (f shared) now component capture =
      (f (setup.runner.start shared now component capture).1,
        (setup.runner.start shared now component capture).2)
  resume (shared : σ) (now : Float) (invocation : ι) (wake : Wake) :
    setup'.runner.resume (f shared) now invocation wake =
      (f (setup.runner.resume shared now invocation wake).1,
        (setup.runner.resume shared now invocation wake).2)
  timeout : setup'.policy.timeout = setup.policy.timeout
  retries : setup'.policy.retries = setup.policy.retries
  captureOutput : setup'.policy.captureOutput = setup.policy.captureOutput
  parallelism : setup'.policy.parallelism = setup.policy.parallelism
  quiet : setup.IsQuiet
  quiet' : setup'.IsQuiet

namespace State

variable (r : Recast σ τ) (s : State σ ι)

theorem recast_halted : (s.recast r).halted = s.halted :=
  rfl

theorem recast_report : (s.recast r).report = s.report :=
  rfl

theorem recast_note (n : Note) : (s.recast r).note n = (s.note n).recast r :=
  rfl

theorem recast_noteAll (notes : List Note) : (s.recast r).noteAll notes = (s.noteAll notes).recast r := by
  rw [noteAll_eq, noteAll_eq]
  simp only [recast, List.append_assoc]

theorem recast_enqueue (t : Turn) : (s.recast r).enqueue t = (s.enqueue t).recast r :=
  rfl

theorem recast_set (delay : Float) (t : Turn) :
    (s.recast r).set delay t = (s.set delay t).recast r := by
  simp only [set, recast, List.append_assoc]

theorem recast_setWorker (i : Nat) (w : Worker ι) :
    (s.recast r).setWorker i w = (s.setWorker i w).recast r :=
  rfl

theorem recast_worker? (i : Nat) : (s.recast r).worker? i = s.worker? i :=
  rfl

/-- What is dropped of the timers of a place leaves the cancellations alone. -/
theorem recast_filter {q : Timer → Bool} (hq : ∀ due, q ⟨due, .cancel⟩ = true) :
    { s.recast r with timers := (s.recast r).timers.filter q } =
      { s with timers := s.timers.filter q }.recast r := by
  have hcancels : r.timers.filter q = r.timers := by
    refine List.filter_eq_self.2 fun t ht ↦ ?_
    obtain ⟨due, -, rfl⟩ := List.mem_map.1 ht
    exact hq due
  simp only [recast, List.filter_append, hcancels]

theorem recast_dropTimers (i : Nat) (keep : List Nat) :
    { s.recast r with timers := dropTimers i keep (s.recast r).timers } =
      { s with timers := dropTimers i keep s.timers }.recast r :=
  recast_filter r s fun _ ↦ rfl

theorem recast_dropAllTimers (i : Nat) :
    { s.recast r with timers := dropAllTimers i (s.recast r).timers } =
      { s with timers := dropAllTimers i s.timers }.recast r :=
  recast_filter r s fun _ ↦ rfl

theorem recast_cancel : (s.recast r).cancel = s.cancel.recast r := by
  unfold cancel
  rw [show (s.recast r).cancelled = s.cancelled from rfl]
  split
  · rfl
  · dsimp only
    rw [show (s.recast r).watching = s.watching from rfl]
    split <;> rfl

end State

/-! ## Attempts -/

section Attempts

variable {r : Recast σ τ} {setup : Setup σ ι} {setup' : Setup τ ι}
  (h : setup.Recasts r.shared setup') {i : Nat} {component : String} {w : Worker ι}
include h

omit h in
theorem finish_recast (f : Finish) (s : State σ ι) :
    finish i w f (s.recast r) = (finish i w f s).recast r :=
  rfl

theorem conclude_recast (answer : Answer) (s : State σ ι) :
    conclude setup' i component w answer (s.recast r) =
      (conclude setup i component w answer s).recast r := by
  unfold conclude
  simp only [h.quiet.emit, h.quiet'.emit]
  rfl

theorem setLimit_recast (attempt : Nat) (s : State σ ι) :
    setLimit setup' i attempt (s.recast r) = (setLimit setup i attempt s).recast r := by
  unfold setLimit
  rw [h.timeout, show (s.recast r).now = s.now from rfl]
  split
  · rfl
  · split
    · rfl
    · exact State.recast_set r s _ _

omit h in
theorem apply_recast (reply : Reply ι Ending) (s : State σ ι) :
    apply i w reply (s.recast r) = ((apply i w reply s).1.recast r, (apply i w reply s).2) := by
  have hset (alarms : List (Nat × Float)) (s : State σ ι) :
      alarms.foldl (fun s a ↦ s.set a.2 (.ring i w.attempt a.1)) (s.recast r) =
        (alarms.foldl (fun s a ↦ s.set a.2 (.ring i w.attempt a.1)) s).recast r := by
    induction alarms generalizing s with
    | nil => rfl
    | cons a alarms ih =>
      simp only [List.foldl_cons, State.recast_set]
      exact ih _
  unfold apply
  rw [State.recast_noteAll]
  split
  · exact Prod.ext (State.recast_dropAllTimers r _ i) rfl
  · refine Prod.ext ?_ rfl
    dsimp only
    rw [State.recast_dropTimers, State.recast_setWorker, State.recast_enqueue]
  · refine Prod.ext ?_ rfl
    dsimp only
    rw [State.recast_dropTimers, hset, State.recast_setWorker]

theorem startAttempt_recast (s : State σ ι) :
    startAttempt setup' i component w (s.recast r) =
      ((startAttempt setup i component w s).1.recast r, (startAttempt setup i component w s).2) := by
  unfold startAttempt
  rw [setLimit_recast h, h.captureOutput]
  generalize setLimit setup i w.attempt s = s
  have hstart := h.start s.shared s.now component setup.policy.captureOutput
  change setup'.runner.start (s.recast r).shared (s.recast r).now component
    setup.policy.captureOutput = _ at hstart
  simp only [hstart]
  exact apply_recast (setup.runner.start s.shared s.now component setup.policy.captureOutput).2
    { s with shared := (setup.runner.start s.shared s.now component setup.policy.captureOutput).1 }

theorem assess_recast (component : String) (expired : Bool) (outstanding : Nat) (ending : Ending) :
    assess setup'.policy expired outstanding ending = assess setup.policy expired outstanding ending ∧
      assessmentNotes setup'.policy expired outstanding component ending =
        assessmentNotes setup.policy expired outstanding component ending := by
  unfold assess assessmentNotes timedOut
  rw [h.timeout, h.captureOutput]
  exact ⟨rfl, rfl⟩

theorem endAttempt_recast {left : Nat} (hattempt : ∀ l, left = l + 1 → ∀ w s,
      attempt setup' i component l w (s.recast r) = (attempt setup i component l w s).recast r)
    (ending : Ending) (s : State σ ι) :
    endAttempt setup' i component (further setup' i component left) w ending (s.recast r) =
      (endAttempt setup i component (further setup i component left) w ending s).recast r := by
  unfold endAttempt
  dsimp only
  obtain ⟨hassess, hnotes⟩ := assess_recast h component w.released.expired w.released.outstanding
    ending
  rw [hassess, hnotes, State.recast_noteAll]
  split
  · exact finish_recast _ _
  · split
    · cases left with
      | zero => exact conclude_recast h _ _
      | succ left =>
        simp only [further]
        rw [h.retries, State.recast_note]
        exact hattempt left rfl _ _
    · exact conclude_recast h _ _

theorem attempt_recast (left : Nat) (w : Worker ι) (s : State σ ι) :
    attempt setup' i component left w (s.recast r) = (attempt setup i component left w s).recast r := by
  have hattempt {left : Nat} (hagain : ∀ l, left = l + 1 → ∀ w s,
      attempt setup' i component l w (s.recast r) = (attempt setup i component l w s).recast r)
      (w : Worker ι) (s : State σ ι) : attempt setup' i component left w (s.recast r) =
        (attempt setup i component left w s).recast r := by
    rw [attempt_eq, attempt_eq, h.quiet.emit, h.quiet'.emit]
    dsimp only
    rw [State.recast_note, State.recast_note, startAttempt_recast h]
    generalize startAttempt setup i component w _ = started
    obtain ⟨s, _ | ending⟩ := started
    · rfl
    · exact endAttempt_recast h hagain ending s
  induction left generalizing w s with
  | zero => exact hattempt (fun l hl ↦ absurd hl (Nat.succ_ne_zero l).symm) w s
  | succ left ih =>
    refine hattempt (fun l hl w s ↦ ?_) w s
    obtain rfl : left = l := by omega
    exact ih w s

theorem work_recast (s : State σ ι) : work setup' i (s.recast r) = (work setup i s).recast r := by
  have hleft (n : Nat) : attemptsLeft setup'.policy n = attemptsLeft setup.policy n := by
    rw [attemptsLeft, attemptsLeft, h.retries]
  unfold work
  rw [show (s.recast r).places = s.places from rfl]
  split
  · next component w _ =>
    split
    · rw [hleft]
      exact attempt_recast h _ _ _
    · next invocation _ rung interrupted _ =>
      have hresume := h.resume s.shared s.now invocation { rung, interrupted }
      change setup'.runner.resume (s.recast r).shared (s.recast r).now invocation _ = _ at hresume
      rw [hresume, hleft]
      generalize setup.runner.resume s.shared s.now invocation _ = resumed
      obtain ⟨shared, reply⟩ := resumed
      dsimp only
      generalize happly : apply (σ := τ) i w reply _ = applied'
      obtain rfl := happly.symm.trans (apply_recast (r := r) reply { s with shared := shared })
      generalize apply i w reply { s with shared := shared } = applied
      obtain ⟨s, _ | ending⟩ := applied
      · rfl
      · exact endAttempt_recast h (fun l _ w s ↦ attempt_recast h l w s) ending s
    · rfl
  · rfl

end Attempts

/-! ## Other turns -/

section Turns

variable (r : Recast σ τ) (s : State σ ι)

theorem interrupt_recast (i : Nat) : interrupt i (s.recast r) = (interrupt i s).recast r := by
  rw [interrupt_eq, interrupt_eq]
  rfl

theorem expire_recast (i attempt : Nat) :
    expire i attempt (s.recast r) = (expire i attempt s).recast r := by
  unfold expire
  rw [State.recast_worker?]
  split
  · split
    · split
      · rw [State.recast_setWorker]
        exact interrupt_recast r _ i
      · rfl
    · rfl
  · rfl

theorem ring_recast (i attempt alarm : Nat) :
    ring i attempt alarm (s.recast r) = (ring i attempt alarm s).recast r := by
  unfold ring
  rw [State.recast_worker?]
  split
  · split
    · split
      · dsimp only
        split <;> rfl
      · rfl
    · rfl
  · rfl

theorem watch_recast : watch (s.recast r) = (watch s).recast r := by
  unfold watch
  rw [show (s.recast r).cancelled = s.cancelled from rfl,
    show (s.recast r).coordinator = s.coordinator from rfl]
  split
  · split <;> rfl
  · rfl

theorem notice_recast (epoch : Nat) : notice epoch (s.recast r) = (notice epoch s).recast r := by
  unfold notice
  rw [show (s.recast r).epoch = s.epoch from rfl,
    show (s.recast r).coordinator = s.coordinator from rfl]
  split
  · rfl
  · split
    · rfl
    · dsimp only
      split <;> rfl
    · rfl

end Turns

/-! ## The coordinator -/

section Coordinator

variable {r : Recast σ τ} {setup : Setup σ ι} {setup' : Setup τ ι} (h : setup.Recasts r.shared setup')
include h

theorem emitSkips_recast (places : List Nat) (s : State σ ι) :
    emitSkips setup' places (s.recast r) =
      ((emitSkips setup places s).1.recast r, (emitSkips setup places s).2) := by
  induction places generalizing s with
  | nil => rfl
  | cons i places ih =>
    rw [emitSkips, emitSkips, show (s.recast r).places = s.places from rfl]
    cases s.places[i]? with
    | none => exact ih s
    | some p =>
      dsimp only
      rw [h.quiet.emit, h.quiet'.emit]
      exact ih ((s.note (.debug .run ("Progress: " ++ (skipEvent p.component).detail))).note
        (.progress (skipEvent p.component)))

theorem complete_recast (s : State σ ι) :
    complete setup' (s.recast r) = (complete setup s).recast r := by
  obtain ⟨new, hnew, -⟩ := emitSkips_eq h.quiet (s.placesWith Slot.isPending) s
  have hrecast := emitSkips_recast h (s.placesWith Slot.isPending) s
  rw [hnew] at hrecast
  rw [complete, complete, hnew]
  rw [show (s.recast r).placesWith Slot.isPending = s.placesWith Slot.isPending from rfl, hrecast]
  rfl

omit h in
theorem drain_recast (cause : Option Abort) (s : State σ ι) :
    drain cause (s.recast r) = (drain cause s).recast r := by
  rw [drain_eq, drain_eq]
  rfl

theorem concludeDrain_recast (cause : Option Abort) (s : State σ ι) :
    concludeDrain setup' cause (s.recast r) = (concludeDrain setup cause s).recast r := by
  obtain ⟨new, hnew, -⟩ :=
    emitSkips_eq h.quiet (s.placesWith fun slot ↦ slot.isRunning && !slot.kept) s
  have hrecast :=
    emitSkips_recast h (s.placesWith fun slot ↦ slot.isRunning && !slot.kept) s
  rw [hnew] at hrecast
  unfold concludeDrain
  rw [hnew, show (s.recast r).placesWith (fun slot ↦ slot.isRunning && !slot.kept) =
    s.placesWith (fun slot ↦ slot.isRunning && !slot.kept) from rfl, hrecast]
  cases cause with
  | none =>
    exact complete_recast h
      { s with journal := new ++ s.journal, places := s.places.map Place.drained }
  | some abort => rfl

theorem fill_recast (s : State σ ι) : fill setup' (s.recast r) = (fill setup s).recast r := by
  have hfilled : (s.recast r).filled setup' = (s.filled setup).recast r := by
    unfold State.filled
    rw [h.parallelism, launch_eq, launch_eq]
    change (if s.halted || s.cancelled then _ else _) = _
    split <;> rfl
  rw [fill_eq, fill_eq, hfilled]
  change (if (s.filled setup).runningCount = 0 then _ else _) = _
  split
  · exact complete_recast h _
  · rfl

/-- Fail-fast makes no difference where settling does not depend on it. -/
theorem collect_recast {s : State σ ι}
    (hsettle : State.settle setup'.policy.failFast s.halted s.places =
      State.settle setup.policy.failFast s.halted s.places) :
    collect setup' (s.recast r) = (collect setup s).recast r := by
  have habort : (s.recast r).abort? setup' = s.abort? setup := congrArg State.Settled.abort hsettle
  have hcollected : (s.recast r).collected setup' = (s.collected setup).recast r := by
    rw [State.collected, State.collected, ← State.recast_noteAll]
    change State.noteAll { s.recast r with
      places := (State.settle setup'.policy.failFast s.halted s.places).places
      halted := (State.settle setup'.policy.failFast s.halted s.places).halted }
        (State.settle setup'.policy.failFast s.halted s.places).notes = _
    rw [hsettle]
    rfl
  rw [collect_eq, collect_eq, habort, hcollected]
  cases s.abort? setup with
  | some abort => exact drain_recast _ _
  | none =>
    have hcount : ((s.collected setup).recast r).runningCount = (s.collected setup).runningCount :=
      rfl
    dsimp only
    rw [hcount, show (s.recast r).cancelled = s.cancelled from rfl]
    split
    · split
      · exact concludeDrain_recast h none ((s.collected setup).note (s.collected setup).cancelNote)
      · exact drain_recast none ((s.collected setup).note (s.collected setup).cancelNote)
    · exact fill_recast h _

/-- A turn of a run that is recast is the turn of the run, recast. -/
theorem handle_recast (t : Turn) {s : State σ ι}
    (hsettle : t = .coordinate → State.settle setup'.policy.failFast s.halted s.places =
      State.settle setup.policy.failFast s.halted s.places) :
    handle setup' t (s.recast r) = (handle setup t s).recast r := by
  cases t with
  | work i => exact work_recast h s
  | expire i attempt => exact expire_recast r s i attempt
  | ring i attempt alarm => exact ring_recast r s i attempt alarm
  | cancel => exact State.recast_cancel r s
  | watch => exact watch_recast r s
  | notice epoch => exact notice_recast r s epoch
  | coordinate =>
    change coordinate setup' (s.recast r) = (coordinate setup s).recast r
    unfold coordinate
    rw [show (s.recast r).coordinator = s.coordinator from rfl]
    split
    · exact collect_recast h (hsettle rfl)
    · exact concludeDrain_recast h _ s
    · rfl

/-! ## Steps -/

omit h in
theorem advance_recast {s : State σ ι} (hnow : (s.recast r).nextInstant = s.nextInstant)
    (hcancels : ∀ due ∈ r.cancels, ¬ due ≤ s.nextInstant) :
    (s.recast r).advance = s.advance.recast r := by
  have hlate {t : Timer} (ht : t ∈ r.timers) : ¬ t.due ≤ s.nextInstant := by
    obtain ⟨due, hdue, rfl⟩ := List.mem_map.1 ht
    exact hcancels due hdue
  have hdue : r.timers.filter (·.due ≤ s.nextInstant) = [] :=
    List.filter_eq_nil_iff.2 fun t ht ↦ by simpa using hlate ht
  have hrest : r.timers.filter (fun t ↦ !decide (t.due ≤ s.nextInstant)) = r.timers :=
    List.filter_eq_self.2 fun t ht ↦ by simpa using hlate ht
  have htimers : (s.recast r).timers = r.timers ++ s.timers := rfl
  simp only [State.advance, hnow, htimers, List.partition_eq_filter_filter, List.filter_append, hdue,
    List.nil_append, Function.comp_def, hrest]
  rfl

/-- A step of a run that is recast is the step of the run, recast, unless fail-fast makes a
difference or a cancellation is due. -/
theorem step_recast {s : State σ ι}
    (hsettle : s.queue.head? = some .coordinate →
      State.settle setup'.policy.failFast s.halted s.places =
        State.settle setup.policy.failFast s.halted s.places)
    (hadvance : s.queue = [] → (s.recast r).nextInstant = s.nextInstant ∧
      ∀ due ∈ r.cancels, ¬ due ≤ s.nextInstant) :
    step setup' (s.recast r) = (step setup s).recast r := by
  unfold step
  rw [show (s.recast r).queue = s.queue from rfl]
  split
  · next t queue hqueue =>
    refine handle_recast (s := { s with queue := queue }) h t fun ht ↦ hsettle ?_
    rw [hqueue, ht]
    rfl
  · next hqueue =>
    obtain ⟨hnow, hcancels⟩ := hadvance hqueue
    exact advance_recast hnow hcancels

/-- A run that is recast goes like the run, up to a turn of the coordinator at which fail-fast makes
a difference. -/
theorem steps_recast_until (hcancels : r.cancels = []) (n : Nat) (s : State σ ι) :
    steps setup' n (s.recast r) = (steps setup n s).recast r ∨
      ∃ m < n, (steps setup m s).isDone = false ∧
        (steps setup m s).queue.head? = some .coordinate ∧
        State.settle setup'.policy.failFast (steps setup m s).halted (steps setup m s).places ≠
          State.settle setup.policy.failFast (steps setup m s).halted (steps setup m s).places ∧
        steps setup' m (s.recast r) = (steps setup m s).recast r := by
  induction n generalizing s with
  | zero => exact .inl rfl
  | succ n ih =>
    rw [steps, steps, show (s.recast r).isDone = s.isDone from rfl]
    split
    · exact .inl rfl
    · next hdone =>
      have hdone' : ¬ (s.recast r).isDone = true := hdone
      by_cases hsettle : s.queue.head? = some .coordinate →
          State.settle setup'.policy.failFast s.halted s.places =
            State.settle setup.policy.failFast s.halted s.places
      · have hstep : step setup' (s.recast r) = (step setup s).recast r := by
          refine step_recast h hsettle fun _ ↦ ⟨?_, by simp [hcancels]⟩
          unfold State.nextInstant
          rw [show (s.recast r).timers = s.timers by simp [State.recast, Recast.timers, hcancels]]
          rfl
        rw [hstep]
        refine (ih _).imp_right ?_
        rintro ⟨m, hm, hsteps⟩
        refine ⟨m + 1, Nat.succ_lt_succ hm, ?_⟩
        rw [steps, if_neg hdone, steps, if_neg hdone', hstep]
        exact hsteps
      · obtain ⟨hhead, hne⟩ := Classical.not_imp.1 hsettle
        exact .inr ⟨0, Nat.succ_pos n, by simpa [steps] using hdone, hhead, hne, rfl⟩

theorem steps_recast (hcancels : r.cancels = [])
    (hfast : setup'.policy.failFast = setup.policy.failFast) (n : Nat) (s : State σ ι) :
    steps setup' n (s.recast r) = (steps setup n s).recast r := by
  refine (steps_recast_until h hcancels n s).resolve_right ?_
  rintro ⟨m, -, -, -, hsettle, -⟩
  exact hsettle (by rw [hfast])

end Coordinator

end Testbed.Run

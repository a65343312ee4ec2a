import Testbed.Proofs.Run.Turns

/-!
# Moves of a place

What a turn about a place can do, whatever the runner is.  It may change the slot of the place, set
and drop the place's own timers and queue further turns about the place; of everything else it only
adds to the journal.  If the work on the component ends, a single notice to the coordinator follows.
-/

namespace Testbed.Run

variable {σ ι : Type} {setup : Setup σ ι} {i : Nat} {s s' s'' : State σ ι}

/-- What changes in the course of a turn about place `i`, as long as the work goes on. -/
structure Moves (i : Nat) (s s' : State σ ι) : Prop where
  now : s'.now = s.now
  queue : s'.queue = s.queue
  next : ∃ new, s'.next = s.next ++ new ∧ ∀ t ∈ new, t.place? = some i
  timers : s'.timers.filter (·.turn.place? ≠ some i) = s.timers.filter (·.turn.place? ≠ some i)
  places : ∃ f : Slot ι → Slot ι, s'.places = s.places.modify i fun p ↦ { p with slot := f p.slot }
  active : s'.isActive i = s.isActive i
  fresh : s'.isFresh i = true → s.isFresh i = true
  slot : s.isActive i = false → s'.slot? i = s.slot? i
  halted : s'.halted = s.halted
  cancelled : s'.cancelled = s.cancelled
  watching : s'.watching = s.watching
  coordinator : s'.coordinator = s.coordinator
  epoch : s'.epoch = s.epoch
  journal : ∃ new, s'.journal = new ++ s.journal ∧ ∀ e ∈ new, e.time = s.now

namespace Moves

theorem modify_self (places : List (Place ι)) (i : Nat) :
    places = places.modify i fun p ↦ { p with slot := id p.slot } :=
  (List.modify_id i places).symm

/-- A change of timers, journal, turns and shared state alone. -/
theorem of_places (hnow : s'.now = s.now) (hqueue : s'.queue = s.queue)
    (hnext : ∃ new, s'.next = s.next ++ new ∧ ∀ t ∈ new, t.place? = some i)
    (htimers : s'.timers.filter (·.turn.place? ≠ some i) =
      s.timers.filter (·.turn.place? ≠ some i))
    (hplaces : s'.places = s.places) (hhalted : s'.halted = s.halted)
    (hcancelled : s'.cancelled = s.cancelled) (hwatching : s'.watching = s.watching)
    (hcoordinator : s'.coordinator = s.coordinator) (hepoch : s'.epoch = s.epoch)
    (hjournal : ∃ new, s'.journal = new ++ s.journal ∧ ∀ e ∈ new, e.time = s.now) :
    Moves i s s' where
  now := hnow
  queue := hqueue
  next := hnext
  timers := htimers
  places := ⟨id, by rw [hplaces]; exact modify_self s.places i⟩
  active := by simp only [State.isActive, State.slot?, hplaces]
  fresh := by simp only [State.isFresh, State.slot?, hplaces, imp_self]
  slot _ := by simp only [State.slot?, hplaces]
  halted := hhalted
  cancelled := hcancelled
  watching := hwatching
  coordinator := hcoordinator
  epoch := hepoch
  journal := hjournal

theorem refl (i : Nat) (s : State σ ι) : Moves i s s :=
  of_places rfl rfl ⟨[], by simp⟩ rfl rfl rfl rfl rfl rfl rfl ⟨[], by simp⟩

theorem trans (h : Moves i s s') (h' : Moves i s' s'') : Moves i s s'' where
  now := h'.now.trans h.now
  queue := h'.queue.trans h.queue
  next := by
    obtain ⟨new, hnew, hi⟩ := h.next
    obtain ⟨new', hnew', hi'⟩ := h'.next
    refine ⟨new ++ new', by rw [hnew', hnew, List.append_assoc], fun t ht ↦ ?_⟩
    exact (List.mem_append.1 ht).elim (hi t) (hi' t)
  timers := h'.timers.trans h.timers
  places := by
    obtain ⟨f, hf⟩ := h.places
    obtain ⟨g, hg⟩ := h'.places
    exact ⟨g ∘ f, by rw [hg, hf, List.modify_modify_eq]; rfl⟩
  active := h'.active.trans h.active
  fresh hf := h.fresh (h'.fresh hf)
  slot ha := (h'.slot (h.active.trans ha)).trans (h.slot ha)
  halted := h'.halted.trans h.halted
  cancelled := h'.cancelled.trans h.cancelled
  watching := h'.watching.trans h.watching
  coordinator := h'.coordinator.trans h.coordinator
  epoch := h'.epoch.trans h.epoch
  journal := by
    obtain ⟨new, hnew, ht⟩ := h.journal
    obtain ⟨new', hnew', ht'⟩ := h'.journal
    refine ⟨new' ++ new, by rw [hnew', hnew, List.append_assoc], fun e he ↦ ?_⟩
    exact (List.mem_append.1 he).elim (fun he ↦ (ht' e he).trans h.now) (ht e)

theorem note (i : Nat) (s : State σ ι) (n : Note) : Moves i s (s.note n) :=
  of_places rfl rfl ⟨[], by simp [State.note]⟩ rfl rfl rfl rfl rfl rfl rfl
    ⟨[⟨s.now, n⟩], by simp [State.note]⟩

theorem noteAll (i : Nat) (s : State σ ι) (notes : List Note) : Moves i s (s.noteAll notes) := by
  rw [State.noteAll_eq]
  exact of_places rfl rfl ⟨[], by simp⟩ rfl rfl rfl rfl rfl rfl rfl
    ⟨(notes.map fun n ↦ ⟨s.now, n⟩).reverse, rfl, by simp⟩

theorem enqueue (s : State σ ι) {t : Turn} (ht : t.place? = some i) : Moves i s (s.enqueue t) :=
  of_places rfl rfl ⟨[t], rfl, by simpa using ht⟩ rfl rfl rfl rfl rfl rfl rfl ⟨[], by simp [State.enqueue]⟩

theorem set (s : State σ ι) (delay : Float) {t : Turn} (ht : t.place? = some i) :
    Moves i s (s.set delay t) :=
  of_places rfl rfl ⟨[], by simp [State.set]⟩ (by simp [State.set, ht]) rfl rfl rfl rfl rfl rfl
    ⟨[], by simp [State.set]⟩

theorem shared (i : Nat) (s : State σ ι) (shared : σ) : Moves i s { s with shared := shared } :=
  of_places rfl rfl ⟨[], by simp⟩ rfl rfl rfl rfl rfl rfl rfl ⟨[], by simp⟩

theorem dropTimers (i : Nat) (s : State σ ι) (keep : List Nat) :
    Moves i s { s with timers := dropTimers i keep s.timers } := by
  refine of_places rfl rfl ⟨[], by simp⟩ ?_ rfl rfl rfl rfl rfl rfl ⟨[], by simp⟩
  rw [Run.dropTimers, List.filter_filter]
  refine List.filter_congr fun t _ ↦ ?_
  rcases t with ⟨_, _ | _ | _ | _ | _ | _ | _⟩ <;> simp +contextual

theorem dropAllTimers (i : Nat) (s : State σ ι) :
    Moves i s { s with timers := dropAllTimers i s.timers } := by
  refine of_places rfl rfl ⟨[], by simp⟩ ?_ rfl rfl rfl rfl rfl rfl ⟨[], by simp⟩
  rw [Run.dropAllTimers, List.filter_filter]
  refine List.filter_congr fun t _ ↦ ?_
  rcases t with ⟨_, _ | _ | _ | _ | _ | _ | _⟩ <;> simp +contextual

theorem setWorker {w : Worker ι} (hs : s.isActive i = true) (hw : ∀ f, w.stage ≠ .finished f)
    (hw' : w.stage ≠ .fresh) :
    Moves i s (s.setWorker i w) where
  now := rfl
  queue := rfl
  next := ⟨[], by simp [State.setWorker, State.setSlot]⟩
  timers := rfl
  places := ⟨fun _ ↦ .running w, rfl⟩
  active := by
    obtain ⟨slot, hslot, -⟩ := (Option.any_eq_true _ _).1 hs
    rw [hs, State.isActive, State.setWorker, State.slot?_setSlot, if_pos rfl, hslot]
    exact Slot.isActive_iff.2 ⟨w, rfl, hw⟩
  fresh hf := by
    obtain ⟨slot, hslot, hf⟩ := (Option.any_eq_true _ _).1 hf
    obtain ⟨slot', hslot', -⟩ := (Option.any_eq_true _ _).1 hs
    rw [State.setWorker, State.slot?_setSlot, if_pos rfl, hslot'] at hslot
    obtain rfl : .running w = slot := by simpa using hslot
    exact absurd (Slot.isFresh_running.1 hf) hw'
  slot ha := by simp [hs] at ha
  halted := rfl
  cancelled := rfl
  watching := rfl
  coordinator := rfl
  epoch := rfl
  journal := ⟨[], by simp [State.setWorker, State.setSlot]⟩

theorem emit (quiet : setup.IsQuiet) (i : Nat) (s : State σ ι) (e : Event) :
    Moves i s (setup.emit s e).1 := by
  rw [quiet.emit]
  exact (note i s _).trans (note i _ _)

theorem slot?_ne (h : Moves i s s') {j : Nat} (hj : j ≠ i) : s'.slot? j = s.slot? j := by
  obtain ⟨f, hf⟩ := h.places
  simp [State.slot?, hf, hj.symm]

theorem components (h : Moves i s s') :
    s'.places.map (·.component) = s.places.map (·.component) := by
  obtain ⟨f, hf⟩ := h.places
  refine List.ext_getElem? fun j ↦ ?_
  rw [hf, List.getElem?_map, List.getElem?_map, List.getElem?_modify]
  split <;> simp [Function.comp_def]

theorem turns (h : Moves i s s') :
    ∃ new, s'.turns = s.turns ++ new ∧ ∀ t ∈ new, t.place? = some i := by
  obtain ⟨new, hnew, hi⟩ := h.next
  exact ⟨new, by rw [State.turns, State.turns, h.queue, hnew, List.append_assoc], hi⟩

theorem isActive_eq (h : Moves i s s') (j : Nat) : s'.isActive j = s.isActive j := by
  by_cases hj : j = i
  · subst hj
    exact h.active
  · rw [State.isActive, State.isActive, h.slot?_ne hj]

theorem isFresh_of (h : Moves i s s') {j : Nat} (hf : s'.isFresh j = true) :
    s.isFresh j = true := by
  by_cases hj : j = i
  · subst hj
    exact h.fresh hf
  · rwa [State.isFresh, ← h.slot?_ne hj]

theorem finish?_eq (h : Moves i s s') (j : Nat) : s'.finish? j = s.finish? j := by
  by_cases hj : j = i
  · subst hj
    cases hs : s.isActive j
    · rw [State.finish?, State.finish?, h.slot hs]
    · have hs' := h.active.trans hs
      obtain ⟨slot, hslot, ha⟩ := (Option.any_eq_true _ _).1 hs
      obtain ⟨slot', hslot', ha'⟩ := (Option.any_eq_true _ _).1 hs'
      simp [State.finish?, hslot, hslot', Slot.finish?_of_isActive ha, Slot.finish?_of_isActive ha']
  · rw [State.finish?, State.finish?, h.slot?_ne hj]

theorem activeCount_eq (h : Moves i s s') : s'.activeCount = s.activeCount := by
  obtain ⟨f, hf⟩ := h.places
  have hactive := h.active
  rw [State.activeCount, State.activeCount, hf]
  cases hp : s.places[i]? with
  | none => rw [List.modify_eq_self (by simpa using hp)]
  | some p =>
    have hcount := countP_modify hp (fun p ↦ { p with slot := f p.slot }) (·.slot.isActive)
    simp only [State.isActive, State.slot?, hf, List.getElem?_modify_eq, hp, Option.map_some,
      Option.any_some, Option.map_eq_map] at hactive
    rw [hactive] at hcount
    omega

end Moves

/-! ## Ends -/

theorem finish_eq (i : Nat) (w : Worker ι) (f : Finish) (s : State σ ι) :
    finish i w f s = { s with
      places := s.places.modify i fun p ↦ { p with slot := .running { w with stage := .finished f } }
      next := s.next ++ [.notice s.epoch] } :=
  rfl

theorem finish_turns (i : Nat) (w : Worker ι) (f : Finish) (s : State σ ι) :
    (finish i w f s).turns = s.turns ++ [.notice s.epoch] := by
  simp [finish_eq, State.turns]

theorem finish_slot?_ne (w : Worker ι) (f : Finish) (s : State σ ι) {j : Nat} (hj : j ≠ i) :
    (finish i w f s).slot? j = s.slot? j := by
  simp [finish_eq, State.slot?, hj.symm]

theorem finish_slot? (w : Worker ι) (f : Finish) (hs : s.isActive i = true) :
    (finish i w f s).slot? i = some (.running { w with stage := .finished f }) := by
  obtain ⟨slot, hslot, -⟩ := (Option.any_eq_true _ _).1 hs
  obtain ⟨c, hc⟩ := State.slot?_eq_some.1 hslot
  simp [finish_eq, State.slot?, hc]

theorem finish_activeCount (w : Worker ι) (f : Finish) (hs : s.isActive i = true) :
    (finish i w f s).activeCount + 1 = s.activeCount := by
  obtain ⟨slot, hslot, ha⟩ := (Option.any_eq_true _ _).1 hs
  obtain ⟨c, hc⟩ := State.slot?_eq_some.1 hslot
  have hcount := countP_modify hc (fun p ↦ { p with slot := .running { w with stage := .finished f } })
    (·.slot.isActive)
  rw [ha] at hcount
  simpa [finish_eq, State.activeCount] using hcount

/-! ## Invocations -/

theorem setLimit_moves (setup : Setup σ ι) (i n : Nat) (s : State σ ι) :
    Moves i s (setLimit setup i n s) := by
  unfold setLimit
  split
  · exact .refl i s
  · split
    · exact .enqueue s (Turn.place?_expire i n)
    · exact .set s _ (Turn.place?_expire i n)

theorem setAll_moves (i n : Nat) (alarms : List (Nat × Float)) (s : State σ ι) :
    Moves i s (alarms.foldl (fun s (alarm, delay) ↦ s.set delay (.ring i n alarm)) s) := by
  induction alarms generalizing s with
  | nil => exact .refl i s
  | cons a alarms ih => exact (Moves.set s a.2 (Turn.place?_ring i n a.1)).trans (ih _)

theorem apply_moves {w : Worker ι} (hs : s.isActive i = true) (reply : Reply ι Ending) :
    Moves i s (apply i w reply s).1 := by
  have hnotes := Moves.noteAll i s reply.notes
  unfold apply
  split
  · exact hnotes.trans (.dropAllTimers i _)
  · refine hnotes.trans ((Moves.dropTimers i _ []).trans ?_)
    refine (Moves.setWorker ?_ (by simp) (by simp)).trans (.enqueue _ (Turn.place?_work i))
    rwa [(Moves.dropTimers i _ []).active, hnotes.active]
  · next invocation keep alarms _ =>
    have hdrop := hnotes.trans (Moves.dropTimers i _ keep)
    have hset := hdrop.trans (setAll_moves i w.attempt alarms _)
    refine hset.trans (.setWorker ?_ (by simp) (by simp))
    rwa [hset.active]

theorem startAttempt_moves (setup : Setup σ ι) {w : Worker ι} (hs : s.isActive i = true)
    (component : String) :
    Moves i s (startAttempt setup i component w s).1 := by
  have hlimit := (setLimit_moves setup i w.attempt s).trans (.shared i _
    (setup.runner.start (setLimit setup i w.attempt s).shared (setLimit setup i w.attempt s).now
      component setup.policy.captureOutput).1)
  exact hlimit.trans (apply_moves (by rwa [hlimit.active]) _)

theorem assessmentNotes_log {policy : Policy} {c : String} (expired : Bool) (outstanding : Nat)
    (ending : Ending) :
    ∀ n ∈ assessmentNotes policy expired outstanding c ending, ∃ line, n = .log line := by
  unfold assessmentNotes
  cases ending with
  | answered => simp
  | raised failure => cases expired <;> simp [Note.warning]
  | interrupted =>
    dsimp only
    split <;> simp [Note.warning]

/-! ## Turns about a place -/

/-- What a turn about place `i` can do. -/
inductive Turned (i : Nat) (s s' : State σ ι) : Prop
  | moves (h : Moves i s s')
  | ends (s₁ : State σ ι) (w : Worker ι) (f : Finish) (hs : s.isActive i = true) (h : Moves i s s₁)
    (hf : s' = finish i w f s₁)

theorem Turned.of_moves (h : Moves i s s') (h' : Turned i s' s'') : Turned i s s'' := by
  obtain h' | ⟨s₁, w, f, hs, h', hf⟩ := h'
  · exact .moves (h.trans h')
  · exact .ends s₁ w f (h.active ▸ hs) (h.trans h') hf

theorem conclude_turned (quiet : setup.IsQuiet) {w : Worker ι} (hs : s.isActive i = true)
    (component : String) (answer : Answer) :
    Turned i s (conclude setup i component w answer s) := by
  rw [conclude, quiet.emit]
  exact .ends _ w _ hs ((Moves.note i s _).trans (.note i _ _)) rfl

theorem endAttempt_turned (quiet : setup.IsQuiet) {w : Worker ι} {component : String}
    {again : Option (Worker ι → State σ ι → State σ ι)} (ending : Ending)
    (hagain : ∀ f ∈ again, ∀ w s, s.isActive i = true → Turned i s (f w s))
    (hs : s.isActive i = true) :
    Turned i s (endAttempt setup i component again w ending s) := by
  have hnotes := Moves.noteAll i s
    (assessmentNotes setup.policy w.released.expired w.released.outstanding component ending)
  have hactive := hnotes.active.trans hs
  refine .of_moves hnotes ?_
  rw [endAttempt]
  split
  · exact .ends _ _ _ hactive (.refl i _) rfl
  · split
    · split
      · exact conclude_turned quiet hactive component _
      · next again =>
        refine .of_moves (.note i _ _) (hagain again rfl _ _ ?_)
        exact (Moves.note i _ _).active.trans hactive
    · exact conclude_turned quiet hactive component _

/-- The event of an attempt that starts. -/
def startedEvent (component : String) (attempt : Nat) : Event where
  component := component
  phase := .started
  attempt := attempt

/-- The event of the end of work. -/
def finishedEvent (component : String) (w : Worker ι) (now : Float) (status : Status) : Event where
  component := component
  phase := .finished
  status := some status
  elapsed := now - w.started
  attempt := w.attempt

theorem attempt_eq (setup : Setup σ ι) (i : Nat) (component : String) (left : Nat) (w : Worker ι)
    (s : State σ ι) :
    attempt setup i component left w s =
      match setup.emit s { component := component, phase := .started, attempt := w.attempt } with
      | (s, some failure) => finish i w (.failed failure) s
      | (s, none) =>
        match startAttempt setup i component w s with
        | (s, none) => s
        | (s, some ending) =>
          endAttempt setup i component (further setup i component left) w ending s := by
  cases left <;> rw [attempt, further] <;> rcases setup.emit s _ with ⟨_, _ | _⟩ <;> rfl

theorem attempt_turned_of (quiet : setup.IsQuiet) {component : String} {left : Nat} {w : Worker ι}
    (hagain : ∀ f ∈ further setup i component left, ∀ w s, s.isActive i = true →
      Turned i s (f w s)) (hs : s.isActive i = true) :
    Turned i s (attempt setup i component left w s) := by
  have hemit := Moves.emit quiet i s
    { component := component, phase := .started, attempt := w.attempt }
  rw [attempt_eq]
  rw [quiet.emit] at hemit ⊢
  have hstart := hemit.trans (startAttempt_moves setup (w := w) (hemit.active.trans hs)
    component)
  dsimp only
  split
  · next h => exact .moves (by rwa [h] at hstart)
  · next h =>
    rw [h] at hstart
    exact .of_moves hstart (endAttempt_turned quiet _ hagain (hstart.active.trans hs))

/-- Attempts that follow each other within one turn: by induction on the attempts left. -/
theorem attempt_turned (quiet : setup.IsQuiet) {component : String} {left : Nat} {w : Worker ι}
    (hs : s.isActive i = true) : Turned i s (attempt setup i component left w s) := by
  induction left generalizing w s with
  | zero => exact attempt_turned_of quiet nofun hs
  | succ left ih =>
    refine attempt_turned_of quiet (fun f hf w s hs ↦ ?_) hs
    obtain rfl : attempt setup i component left = f := by simpa [further] using hf
    exact ih hs

theorem further_turned (quiet : setup.IsQuiet) {component : String} {left : Nat} :
    ∀ f ∈ further setup i component left, ∀ w s, s.isActive i = true → Turned i s (f w s) := by
  intro f hf w s hs
  cases left with
  | zero => cases hf
  | succ left =>
    obtain rfl : attempt setup i component left = f := by simpa [further] using hf
    exact attempt_turned quiet hs

theorem work_turned (quiet : setup.IsQuiet) (i : Nat) (s : State σ ι) :
    Turned i s (work setup i s) := by
  unfold work
  split
  · next component w hplace =>
    have hslot : s.slot? i = some (.running w) := State.slot?_eq_some.2 ⟨component, hplace⟩
    split
    · next hstage =>
      have hs : s.isActive i = true := by
        rw [State.isActive, hslot]
        exact Slot.isActive_iff.2 ⟨w, rfl, by simp [hstage]⟩
      exact attempt_turned quiet hs
    · next invocation _ rung interrupted hstage =>
      have hs : s.isActive i = true := by
        rw [State.isActive, hslot]
        exact Slot.isActive_iff.2 ⟨w, rfl, by simp [hstage]⟩
      have hshared := Moves.shared i s
        (setup.runner.resume s.shared s.now invocation { rung, interrupted }).1
      have happly := hshared.trans (apply_moves (w := w) (hshared.active.trans hs)
        (setup.runner.resume s.shared s.now invocation { rung, interrupted }).2)
      dsimp only
      split
      · next h => exact .moves (by rwa [h] at happly)
      · next h =>
        rw [h] at happly
        exact .of_moves happly
          (endAttempt_turned quiet _ (further_turned quiet) (happly.active.trans hs))
    · exact .moves (.refl i s)
  · exact .moves (.refl i s)

theorem finish_not_fresh (i : Nat) (w : Worker ι) (f : Finish) (s : State σ ι) :
    (finish i w f s).isFresh i = false :=
  (s.setWorker_not_fresh i (w := { w with stage := .finished f }) nofun)

theorem apply_not_fresh {w : Worker ι} {reply : Reply ι Ending}
    (h : (apply i w reply s).2 = none) : (apply i w reply s).1.isFresh i = false := by
  unfold apply at h ⊢
  split
  · simp_all
  · exact State.setWorker_not_fresh _ i (by simp)
  · exact State.setWorker_not_fresh _ i (by simp)

theorem startAttempt_not_fresh {w : Worker ι} {component : String}
    (h : (startAttempt setup i component w s).2 = none) :
    (startAttempt setup i component w s).1.isFresh i = false :=
  apply_not_fresh h

theorem conclude_not_fresh (quiet : setup.IsQuiet) (w : Worker ι) (component : String)
    (answer : Answer) (s : State σ ι) :
    (conclude setup i component w answer s).isFresh i = false := by
  rw [conclude, quiet.emit]
  exact finish_not_fresh i _ _ _

theorem endAttempt_not_fresh (quiet : setup.IsQuiet) {w : Worker ι} {component : String}
    {again : Option (Worker ι → State σ ι → State σ ι)} (ending : Ending)
    (hagain : ∀ f ∈ again, ∀ w s, (f w s).isFresh i = false) :
    (endAttempt setup i component again w ending s).isFresh i = false := by
  rw [endAttempt]
  split
  · exact finish_not_fresh i _ _ _
  · split
    · split
      · exact conclude_not_fresh quiet _ _ _ _
      · exact hagain _ rfl _ _
    · exact conclude_not_fresh quiet _ _ _ _

theorem attempt_not_fresh_of (quiet : setup.IsQuiet) {component : String} {left : Nat}
    {w : Worker ι} (hagain : ∀ f ∈ further setup i component left, ∀ w s, (f w s).isFresh i = false) :
    (attempt setup i component left w s).isFresh i = false := by
  rw [attempt_eq, quiet.emit]
  dsimp only
  split
  · next h =>
    have hfresh := startAttempt_not_fresh (congrArg Prod.snd h)
    rwa [h] at hfresh
  · exact endAttempt_not_fresh quiet _ hagain

theorem attempt_not_fresh (quiet : setup.IsQuiet) (component : String) (left : Nat) (w : Worker ι)
    (s : State σ ι) : (attempt setup i component left w s).isFresh i = false := by
  induction left generalizing w s with
  | zero => exact attempt_not_fresh_of quiet nofun
  | succ left ih =>
    refine attempt_not_fresh_of quiet fun f hf w s ↦ ?_
    obtain rfl : attempt setup i component left = f := by simpa [further] using hf
    exact ih w s

/-- The first attempt is made in the turn that starts it, whatever becomes of it. -/
theorem work_not_fresh (quiet : setup.IsQuiet) (i : Nat) (s : State σ ι) :
    (work setup i s).isFresh i = false := by
  cases hfresh : s.isFresh i
  · obtain h | ⟨s₁, w, f, -, -, hf⟩ := work_turned quiet i s
    · by_contra hn
      rw [h.fresh (by simpa using hn)] at hfresh
      cases hfresh
    · rw [hf]
      exact finish_not_fresh i w f s₁
  · obtain ⟨slot, hslot, hf⟩ := (Option.any_eq_true _ _).1 hfresh
    obtain ⟨component, hplace⟩ := State.slot?_eq_some.1 hslot
    obtain ⟨w, rfl, hstage⟩ := Slot.isFresh_iff.1 hf
    rw [work, hplace]
    dsimp only
    rw [hstage]
    exact attempt_not_fresh quiet component _ _ s

theorem isActive_of_worker? {w : Worker ι} (h : s.worker? i = some w)
    (hw : ∀ f, w.stage ≠ .finished f) : s.isActive i = true := by
  rw [State.isActive, State.worker?_eq_some.1 h]
  exact Slot.isActive_iff.2 ⟨w, rfl, hw⟩

theorem ring_moves (i n alarm : Nat) (s : State σ ι) : Moves i s (ring i n alarm s) := by
  unfold ring
  split
  · next w hw =>
    split
    · next hstage =>
      have hs := isActive_of_worker? hw (by simp [hstage])
      split
      · dsimp only
        split
        · exact .setWorker hs (by simp) (by simp)
        · exact (Moves.setWorker hs (by simp) (by simp)).trans (.enqueue _ (Turn.place?_work i))
      · exact .refl i s
    · exact .refl i s
  · exact .refl i s

theorem interrupt_moves (i : Nat) (s : State σ ι) : Moves i s (interrupt i s) := by
  unfold interrupt
  split
  · next w hw =>
    split
    · next hstage =>
      have hs := isActive_of_worker? hw (by simp [hstage])
      dsimp only
      split
      · exact .setWorker hs (by simp) (by simp)
      · exact (Moves.setWorker hs (by simp) (by simp)).trans (.enqueue _ (Turn.place?_work i))
    · exact .refl i s
  · exact .refl i s

theorem expire_moves (i n : Nat) (s : State σ ι) : Moves i s (expire i n s) := by
  unfold expire
  split
  · next w hw =>
    split
    · next hstage =>
      have hs := isActive_of_worker? hw (by simp [hstage])
      split
      · exact (Moves.setWorker hs (by simp [hstage]) (by simp [hstage])).trans (interrupt_moves i _)
      · exact .refl i s
    · exact .refl i s
  · exact .refl i s

/-- A turn about a place does no more than `Turned` says. -/
theorem handle_turned (quiet : setup.IsQuiet) {t : Turn} (ht : t.place? = some i)
    (s : State σ ι) : Turned i s (handle setup t s) := by
  cases t with
  | work j =>
    obtain rfl : j = i := by simpa using ht
    exact work_turned quiet j s
  | expire j n =>
    obtain rfl : j = i := by simpa using ht
    exact .moves (expire_moves j n s)
  | ring j n alarm =>
    obtain rfl : j = i := by simpa using ht
    exact .moves (ring_moves j n alarm s)
  | cancel | watch | notice | coordinate => cases ht

namespace Turned

theorem next (h : Turned i s s') :
    ∃ new, s'.next = s.next ++ new ∧ ∀ t ∈ new, t.place? = some i ∨ t = .notice s.epoch := by
  obtain h | ⟨s₁, w, f, -, h, rfl⟩ := h
  · obtain ⟨new, hnew, hi⟩ := h.next
    exact ⟨new, hnew, fun t ht ↦ .inl (hi t ht)⟩
  · obtain ⟨new, hnew, hi⟩ := h.next
    refine ⟨new ++ [.notice s.epoch], ?_, fun t ht ↦ ?_⟩
    · rw [finish_eq, hnew, h.epoch, List.append_assoc]
    · obtain ht | ht := List.mem_append.1 ht
      · exact .inl (hi t ht)
      · exact .inr (List.mem_singleton.1 ht)

theorem timers (h : Turned i s s') : s'.timers.filter (·.turn.place? ≠ some i) =
    s.timers.filter (·.turn.place? ≠ some i) := by
  obtain h | ⟨s₁, w, f, -, h, rfl⟩ := h <;> exact h.timers

theorem now (h : Turned i s s') : s'.now = s.now := by
  obtain h | ⟨s₁, w, f, -, h, rfl⟩ := h <;> exact h.now

theorem queue (h : Turned i s s') : s'.queue = s.queue := by
  obtain h | ⟨s₁, w, f, -, h, rfl⟩ := h <;> exact h.queue

theorem turns (h : Turned i s s') :
    ∃ new, s'.turns = s.turns ++ new ∧ ∀ t ∈ new, t.place? = some i ∨ t = .notice s.epoch := by
  obtain ⟨new, hnew, hi⟩ := h.next
  exact ⟨new, by rw [State.turns, State.turns, h.queue, hnew, List.append_assoc], hi⟩

theorem halted (h : Turned i s s') : s'.halted = s.halted := by
  obtain h | ⟨s₁, w, f, -, h, rfl⟩ := h <;> exact h.halted

theorem cancelled (h : Turned i s s') : s'.cancelled = s.cancelled := by
  obtain h | ⟨s₁, w, f, -, h, rfl⟩ := h <;> exact h.cancelled

theorem watching (h : Turned i s s') : s'.watching = s.watching := by
  obtain h | ⟨s₁, w, f, -, h, rfl⟩ := h <;> exact h.watching

theorem coordinator (h : Turned i s s') : s'.coordinator = s.coordinator := by
  obtain h | ⟨s₁, w, f, -, h, rfl⟩ := h <;> exact h.coordinator

theorem epoch (h : Turned i s s') : s'.epoch = s.epoch := by
  obtain h | ⟨s₁, w, f, -, h, rfl⟩ := h <;> exact h.epoch

theorem journal (h : Turned i s s') :
    ∃ new, s'.journal = new ++ s.journal ∧ ∀ e ∈ new, e.time = s.now := by
  obtain h | ⟨s₁, w, f, -, h, rfl⟩ := h <;> exact h.journal

theorem slot?_ne (h : Turned i s s') {j : Nat} (hj : j ≠ i) : s'.slot? j = s.slot? j := by
  obtain h | ⟨s₁, w, f, -, h, rfl⟩ := h
  · exact h.slot?_ne hj
  · rw [finish_slot?_ne w f s₁ hj, h.slot?_ne hj]

theorem slot (h : Turned i s s') (hs : s.isActive i = false) : s'.slot? i = s.slot? i := by
  obtain h | ⟨s₁, w, f, hs', -, -⟩ := h
  · exact h.slot hs
  · rw [hs] at hs'
    cases hs'

theorem components (h : Turned i s s') :
    s'.places.map (·.component) = s.places.map (·.component) := by
  obtain h | ⟨s₁, w, f, -, h, rfl⟩ := h
  · exact h.components
  · rw [← h.components]
    refine List.ext_getElem? fun j ↦ ?_
    rw [finish_eq, List.getElem?_map, List.getElem?_map, List.getElem?_modify]
    split <;> simp [Function.comp_def]

theorem places (h : Turned i s s') :
    ∃ f : Slot ι → Slot ι, s'.places = s.places.modify i fun p ↦ { p with slot := f p.slot } := by
  obtain h | ⟨s₁, w, f, -, h, rfl⟩ := h
  · exact h.places
  · obtain ⟨g, hg⟩ := h.places
    exact ⟨fun _ ↦ .running { w with stage := .finished f }, by
      rw [finish_eq, hg, List.modify_modify_eq]; rfl⟩

theorem isFresh_of (h : Turned i s s') {j : Nat} (hf : s'.isFresh j = true) :
    s.isFresh j = true := by
  obtain h | ⟨s₁, w, f, -, h, rfl⟩ := h
  · exact h.isFresh_of hf
  · by_cases hj : j = i
    · subst hj
      rw [finish_not_fresh] at hf
      cases hf
    · rw [State.isFresh, finish_slot?_ne w f s₁ hj] at hf
      exact h.isFresh_of hf

/-- Work that has ended stays as it is; if other work ends then with a notice. -/
theorem finish? (h : Turned i s s') (j : Nat) :
    s'.finish? j = s.finish? j ∨ s.finish? j = none ∧ Turn.notice s.epoch ∈ s'.turns := by
  obtain h | ⟨s₁, w, f, hs, h, rfl⟩ := h
  · exact .inl (h.finish?_eq j)
  · by_cases hj : j = i
    · subst hj
      obtain ⟨slot, hslot, ha⟩ := (Option.any_eq_true _ _).1 hs
      right
      constructor
      · simp [State.finish?, hslot, Slot.finish?_of_isActive ha]
      · simp [finish_turns, h.epoch]
    · left
      rw [← h.finish?_eq j, State.finish?, State.finish?, finish_slot?_ne w f s₁ hj]

/-- A new notice tells of work that has ended. -/
theorem exists_finish (h : Turned i s s') (hn : Turn.notice s.epoch ∈ s'.turns) :
    Turn.notice s.epoch ∈ s.turns ∨ ∃ j f, s'.finish? j = some f := by
  obtain h | ⟨s₁, w, f, hs, h, rfl⟩ := h
  · obtain ⟨new, hnew, hi⟩ := h.turns
    rw [hnew, List.mem_append] at hn
    refine .inl (hn.resolve_right fun hn ↦ ?_)
    cases hi _ hn
  · refine .inr ⟨i, f, ?_⟩
    rw [State.finish?, finish_slot? w f (h.active.trans hs)]
    rfl

theorem isRunning (h : Turned i s s') (j : Nat) :
    (s'.slot? j).any Slot.isRunning = (s.slot? j).any Slot.isRunning := by
  have hrunning (t : State σ ι) :
      (t.slot? j).any Slot.isRunning = (t.isActive j || (t.finish? j).isSome) := by
    rw [State.isActive, State.finish?]
    cases t.slot? j with
    | none => rfl
    | some slot => exact slot.isRunning_eq
  rw [hrunning, hrunning]
  obtain h | ⟨s₁, w, f, hs, h, rfl⟩ := h
  · rw [h.isActive_eq, h.finish?_eq]
  · by_cases hj : j = i
    · subst hj
      rw [hs, State.finish?, finish_slot? w f (h.active.trans hs)]
      simp [Slot.finish?]
    · rw [← h.isActive_eq, ← h.finish?_eq, State.isActive, State.isActive, State.finish?, State.finish?,
        finish_slot?_ne w f s₁ hj]

/-- Every end is noticed once. -/
theorem activeCount_add (h : Turned i s s') :
    s'.activeCount + s'.turns.count (.notice s.epoch) =
      s.activeCount + s.turns.count (.notice s.epoch) := by
  have hcount {new : List Turn} (hi : ∀ t ∈ new, t.place? = some i) :
      new.count (.notice s.epoch) = 0 :=
    List.count_eq_zero.2 fun hn ↦ by cases hi _ hn
  obtain h | ⟨s₁, w, f, hs, h, rfl⟩ := h
  · obtain ⟨new, hnew, hi⟩ := h.turns
    rw [h.activeCount_eq, hnew, List.count_append, hcount hi, Nat.add_zero]
  · obtain ⟨new, hnew, hi⟩ := h.turns
    have hactive := finish_activeCount w f (h.active.trans hs)
    rw [h.activeCount_eq] at hactive
    rw [finish_turns, hnew, h.epoch, List.count_append, List.count_append, hcount hi,
      List.count_singleton_self]
    omega

end Turned

end Testbed.Run

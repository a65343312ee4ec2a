import Testbed.Proofs.Run.Moves

/-!
# What a reply leads to

The turn of a component's work hands control to the runner once, and once more for every further
attempt that begins in the same turn.  What becomes of the work is said here by the replies alone,
for every runner: it waits, it has ended, or an attempt follows, to which the runner replies in turn.
-/

namespace Testbed.Run

variable {σ ι : Type} {setup : Setup σ ι} {i : Nat} {c : String} {w : Worker ι} {s s' : State σ ι}
  {reply : Reply ι Ending} {ending : Ending}

/-- The worker of the attempt that follows an ended one. -/
def Worker.again (w : Worker ι) : Worker ι :=
  { w.released with attempt := w.attempt + 1, expired := false, stage := .fresh }

/-- The outcome of work that ends with an answer that counts. -/
def Worker.outcome (w : Worker ι) (component : String) (now : Float) (answer : Answer) : Outcome where
  component := component
  status := answer.status
  duration := .real (now - w.started)
  diagnostics := answer.diagnostics
  attempts := w.attempt

/-- The judgement on the attempt of a worker. -/
def Worker.assess (w : Worker ι) (policy : Policy) (ending : Ending) : Assessment :=
  Run.assess policy w.expired w.released.outstanding ending

/-- What becomes of the work on a component when its runner has replied. -/
inductive Setup.Leads (setup : Setup σ ι) (now : Float) (c : String) :
    Worker ι → Reply ι Ending → Worker ι → Prop
  | yields {w : Worker ι} {reply : Reply ι Ending} {invocation : ι}
    (next : reply.next = .yields invocation) :
    setup.Leads now c w reply { w with stage := .suspended invocation [] { queued := true } }
  | waits {w : Worker ι} {reply : Reply ι Ending} {invocation : ι} {keep : List Nat}
    {alarms : List (Nat × Float)} (next : reply.next = .waits invocation keep alarms) :
    setup.Leads now c w reply
      { w with stage := .suspended invocation (keep ++ alarms.map (·.1)) {} }
  | interrupted {w : Worker ι} {reply : Reply ι Ending} {ending : Ending}
    (next : reply.next = .ends ending) (assess : w.assess setup.policy ending = .interrupted) :
    setup.Leads now c w reply { w.released with stage := .finished .interrupted }
  | concludes {w : Worker ι} {reply : Reply ι Ending} {ending : Ending} {answer : Answer}
    {retryable : Bool} (next : reply.next = .ends ending)
    (assess : w.assess setup.policy ending = .counted answer retryable)
    (last : answer.status = .errored → retryable = true → attemptsLeft setup.policy w.attempt = 0) :
    setup.Leads now c w reply
      { w.released with stage := .finished (.outcome (w.outcome c now answer)) }
  | again {w w' : Worker ι} {reply : Reply ι Ending} {ending : Ending} {answer : Answer}
    (shared : σ) (next : reply.next = .ends ending)
    (assess : w.assess setup.policy ending = .counted answer true)
    (errored : answer.status = .errored) (left : attemptsLeft setup.policy w.attempt ≠ 0)
    (leads : setup.Leads now c w.again
      (setup.runner.start shared now c setup.policy.captureOutput).2 w') :
    setup.Leads now c w reply w'

/-- A kind of notes that all log lines and progress events are of, and all that the runner notes when
it starts an invocation. -/
structure Setup.Allows (setup : Setup σ ι) (allowed : Note → Prop) : Prop where
  log (line : LogLine) : allowed (.log line)
  progress (event : Event) : allowed (.progress event)
  start (shared : σ) (now : Float) (c : String) :
    ∀ n ∈ (setup.runner.start shared now c setup.policy.captureOutput).2.notes, allowed n

/-- The journal grows by notes of a kind. -/
def Grows (allowed : Note → Prop) (s s' : State σ ι) : Prop :=
  ∃ new, s'.journal = new ++ s.journal ∧ ∀ e ∈ new, allowed e.note

namespace Grows

variable {allowed : Note → Prop} {s'' : State σ ι}

theorem of_journal (h : s'.journal = s.journal) : Grows allowed s s' :=
  ⟨[], h, by simp⟩

theorem refl (s : State σ ι) : Grows allowed s s :=
  of_journal rfl

theorem trans (h : Grows allowed s s') (h' : Grows allowed s' s'') : Grows allowed s s'' := by
  obtain ⟨new, hnew, hallowed⟩ := h
  obtain ⟨new', hnew', hallowed'⟩ := h'
  refine ⟨new' ++ new, by rw [hnew', hnew, List.append_assoc], fun e he ↦ ?_⟩
  exact (List.mem_append.1 he).elim (hallowed' e) (hallowed e)

theorem mono (h : Grows allowed s s') {allowed' : Note → Prop} (hallowed : ∀ n, allowed n → allowed' n) :
    Grows allowed' s s' := by
  obtain ⟨new, hnew, hnotes⟩ := h
  exact ⟨new, hnew, fun e he ↦ hallowed e.note (hnotes e he)⟩

theorem note (s : State σ ι) {n : Note} (h : allowed n) : Grows allowed s (s.note n) :=
  ⟨[⟨s.now, n⟩], rfl, by simpa using h⟩

theorem noteAll (s : State σ ι) {notes : List Note} (h : ∀ n ∈ notes, allowed n) :
    Grows allowed s (s.noteAll notes) := by
  rw [State.noteAll_eq]
  refine ⟨_, rfl, fun e he ↦ ?_⟩
  obtain ⟨n, hn, rfl⟩ := List.mem_map.1 (List.mem_reverse.1 he)
  exact h n hn

theorem forall_note (h : Grows allowed s s') (hs : ∀ e ∈ s.journal, allowed e.note) :
    ∀ e ∈ s'.journal, allowed e.note := by
  obtain ⟨new, hnew, hallowed⟩ := h
  rw [hnew]
  exact fun e he ↦ (List.mem_append.1 he).elim (hallowed e) (hs e)

end Grows

/-! ## Carrying out a reply -/

/-- Carries out a reply; if it ends the attempt, another one may follow. -/
def replied (setup : Setup σ ι) (i : Nat) (c : String) (left : Nat) (w : Worker ι)
    (reply : Reply ι Ending) (s : State σ ι) : State σ ι :=
  match apply i w reply s with
  | (s, none) => s
  | (s, some ending) => endAttempt setup i c (further setup i c left) w ending s

/-- What a turn does that carries out a reply. -/
structure Replied (setup : Setup σ ι) (i : Nat) (c : String) (w : Worker ι) (reply : Reply ι Ending)
    (s s' : State σ ι) : Prop where
  leads : ∃ w', s'.slot? i = some (.running w') ∧ setup.Leads s.now c w reply w'
  grows : ∀ allowed, setup.Allows allowed → (∀ n ∈ reply.notes, allowed n) → Grows allowed s s'

theorem Replied.of_grows {s₁ : State σ ι} (h : Replied setup i c w reply s₁ s') (hnow : s₁.now = s.now)
    (hgrows : ∀ allowed, setup.Allows allowed → (∀ n ∈ reply.notes, allowed n) →
      Grows allowed s s₁) : Replied setup i c w reply s s' where
  leads := hnow ▸ h.leads
  grows allowed hallowed hreply :=
    (hgrows allowed hallowed hreply).trans (h.grows allowed hallowed hreply)

theorem setWorker_slot? {slot : Slot ι} (h : s.slot? i = some slot) (w : Worker ι) :
    (s.setWorker i w).slot? i = some (.running w) := by
  rw [State.setWorker, State.slot?_setSlot, if_pos rfl, h]
  rfl

theorem finish_running {slot : Slot ι} (h : s.slot? i = some slot) (w : Worker ι) (f : Finish) :
    (finish i w f s).slot? i = some (.running { w with stage := .finished f }) :=
  setWorker_slot? h _

theorem setAll_eq (i n : Nat) (alarms : List (Nat × Float)) (s : State σ ι) :
    alarms.foldl (fun s (alarm, delay) ↦ s.set delay (.ring i n alarm)) s = { s with
      timers := s.timers ++ alarms.map fun (alarm, delay) ↦ ⟨s.now + delay, .ring i n alarm⟩ } := by
  induction alarms generalizing s with
  | nil => simp
  | cons a alarms ih =>
    rw [List.foldl_cons, ih]
    simp [State.set]

theorem setAll_slot? (i n : Nat) (alarms : List (Nat × Float)) (s : State σ ι) (j : Nat) :
    (alarms.foldl (fun s (alarm, delay) ↦ s.set delay (.ring i n alarm)) s).slot? j = s.slot? j := by
  rw [setAll_eq]
  rfl

/-! ## Beginnings and ends of attempts -/

/-- Something was logged or told to the listener. -/
def Remarked (s s' : State σ ι) : Prop :=
  ∃ new, s' = { s with journal := new ++ s.journal } ∧
    ∀ e ∈ new, (∃ line, e.note = .log line) ∨ ∃ event, e.note = .progress event

namespace Remarked

theorem note (s : State σ ι) {n : Note} (h : (∃ line, n = .log line) ∨ ∃ event, n = .progress event) :
    Remarked s (s.note n) :=
  ⟨[⟨s.now, n⟩], rfl, by simpa using h⟩

theorem trans {s'' : State σ ι} (h : Remarked s s') (h' : Remarked s' s'') : Remarked s s'' := by
  obtain ⟨new, rfl, hnew⟩ := h
  obtain ⟨new', rfl, hnew'⟩ := h'
  refine ⟨new' ++ new, by simp only [List.append_assoc], fun e he ↦ ?_⟩
  exact (List.mem_append.1 he).elim (hnew' e) (hnew e)

theorem emit (quiet : setup.IsQuiet) (s : State σ ι) (e : Event) :
    ∃ s', setup.emit s e = (s', none) ∧ Remarked s s' :=
  ⟨_, quiet.emit s e, (note s (.inl ⟨_, rfl⟩)).trans (.note _ (.inr ⟨e, rfl⟩))⟩

theorem assessment (policy : Policy) (expired : Bool) (outstanding : Nat) (c : String)
    (ending : Ending) (s : State σ ι) :
    Remarked s (s.noteAll (assessmentNotes policy expired outstanding c ending)) := by
  refine ⟨_, State.noteAll_eq s _, fun e he ↦ ?_⟩
  obtain ⟨n, hn, rfl⟩ := List.mem_map.1 (List.mem_reverse.1 he)
  exact .inl (assessmentNotes_log _ _ _ n hn)

theorem grows (h : Remarked s s') {allowed : Note → Prop} (hallowed : setup.Allows allowed) :
    Grows allowed s s' := by
  obtain ⟨new, rfl, hnew⟩ := h
  refine ⟨new, rfl, fun e he ↦ ?_⟩
  obtain ⟨line, hline⟩ | ⟨event, hevent⟩ := hnew e he
  · exact hline ▸ hallowed.log line
  · exact hevent ▸ hallowed.progress event

theorem now (h : Remarked s s') : s'.now = s.now := by
  obtain ⟨new, rfl, -⟩ := h
  rfl

theorem slot? (h : Remarked s s') (i : Nat) : s'.slot? i = s.slot? i := by
  obtain ⟨new, rfl, -⟩ := h
  rfl

end Remarked

/-- The state in which the runner replies to the start of an attempt. -/
def State.attempting (setup : Setup σ ι) (i : Nat) (c : String) (w : Worker ι) (s : State σ ι) :
    State σ ι :=
  { setLimit setup i w.attempt s with
    shared := (setup.runner.start s.shared s.now c setup.policy.captureOutput).1 }

/-- The limit of an attempt takes effect at once or is set. -/
theorem setLimit_cases (setup : Setup σ ι) (i n : Nat) (s : State σ ι) :
    setLimit setup i n s = s ∨ setLimit setup i n s = s.enqueue (.expire i n) ∨
      ∃ limit, setLimit setup i n s = s.set limit (.expire i n) := by
  unfold setLimit
  split
  · exact .inl rfl
  · split
    · exact .inr (.inl rfl)
    · exact .inr (.inr ⟨_, rfl⟩)

theorem setLimit_frame (setup : Setup σ ι) (i n : Nat) (s : State σ ι) :
    (setLimit setup i n s).now = s.now ∧ (setLimit setup i n s).shared = s.shared ∧
      (setLimit setup i n s).places = s.places ∧ (setLimit setup i n s).journal = s.journal := by
  obtain h | h | ⟨limit, h⟩ := setLimit_cases setup i n s <;> rw [h] <;> exact ⟨rfl, rfl, rfl, rfl⟩

theorem attempt_eq_emit (quiet : setup.IsQuiet) (left : Nat) (w : Worker ι) (s : State σ ι) :
    attempt setup i c left w s = replied setup i c left w
      (setup.runner.start s.shared s.now c setup.policy.captureOutput).2
        ((setup.emit s (startedEvent c w.attempt)).1.attempting setup i c w) := by
  obtain ⟨hnow, hshared, -⟩ := setLimit_frame setup i w.attempt (setup.emit s (startedEvent c w.attempt)).1
  rw [quiet.emit] at hnow hshared ⊢
  rw [attempt_eq, quiet.emit]
  dsimp only
  rw [startAttempt, State.attempting]
  dsimp only
  rw [startedEvent] at hnow hshared ⊢
  rw [hnow, hshared]
  rfl

/-- An attempt begins with a reply. -/
theorem attempt_eq_replied (quiet : setup.IsQuiet) (left : Nat) (w : Worker ι) (s : State σ ι) :
    ∃ s₁, Remarked s s₁ ∧ attempt setup i c left w s = replied setup i c left w
      (setup.runner.start s₁.shared s₁.now c setup.policy.captureOutput).2
        (s₁.attempting setup i c w) := by
  obtain ⟨s₁, hemit, hremarked⟩ := Remarked.emit quiet s (startedEvent c w.attempt)
  refine ⟨s₁, hremarked, ?_⟩
  rw [attempt_eq_emit quiet, hemit]
  obtain ⟨new, rfl, -⟩ := hremarked
  rfl

/-- How an attempt ends: the work ends, or another attempt begins. -/
inductive EndsIn (setup : Setup σ ι) (i : Nat) (c : String) (left : Nat) (w : Worker ι)
    (ending : Ending) (s : State σ ι) : State σ ι → Prop
  | interrupted (assess : w.assess setup.policy ending = .interrupted) :
    EndsIn setup i c left w ending s (finish i w.released .interrupted s)
  | concludes {answer : Answer} {retryable : Bool}
    (assess : w.assess setup.policy ending = .counted answer retryable)
    (last : answer.status = .errored → retryable = true → left = 0) :
    EndsIn setup i c left w ending s
      (finish i w.released (.outcome (w.outcome c s.now answer)) s)
  | again {answer : Answer} {l : Nat} (assess : w.assess setup.policy ending = .counted answer true)
    (errored : answer.status = .errored) (more : left = l + 1) :
    EndsIn setup i c left w ending s (attempt setup i c l w.again s)

theorem endAttempt_endsIn (quiet : setup.IsQuiet) (left : Nat) (w : Worker ι) (ending : Ending)
    (s : State σ ι) : ∃ s₁, Remarked s s₁ ∧ EndsIn setup i c left w ending s₁
      (endAttempt setup i c (further setup i c left) w ending s) := by
  have hnoted := Remarked.assessment setup.policy w.expired w.released.outstanding c ending s
  have hconclude {answer : Answer} {retryable : Bool}
      (hassess : w.assess setup.policy ending = .counted answer retryable)
      (hlast : answer.status = .errored → retryable = true → left = 0) {s' : State σ ι}
      (hs' : Remarked s s') : ∃ s₁, Remarked s s₁ ∧ EndsIn setup i c left w ending s₁
        (conclude setup i c w.released answer s') := by
    obtain ⟨s₁, hemit, hremarked⟩ := Remarked.emit quiet s' {
      component := c
      phase := .finished
      status := some answer.status
      elapsed := s'.now - w.released.started
      attempt := w.released.attempt }
    refine ⟨s₁, hs'.trans hremarked, ?_⟩
    rw [conclude, hemit, ← hremarked.now]
    exact .concludes hassess hlast
  rw [endAttempt]
  dsimp only
  split
  · next hassess => exact ⟨_, hnoted, .interrupted hassess⟩
  · next answer retryable hassess =>
    split
    · next hagainst =>
      obtain ⟨herrored, rfl⟩ := hagainst
      cases left with
      | zero => exact hconclude hassess (fun _ _ ↦ rfl) hnoted
      | succ l => exact ⟨_, hnoted.trans (.note _ (.inl ⟨_, rfl⟩)), .again hassess herrored rfl⟩
    · next hlast =>
      exact hconclude hassess (fun herrored hretryable ↦ absurd ⟨herrored, hretryable⟩ hlast) hnoted

theorem attemptsLeft_again {left : Nat} (h : attemptsLeft setup.policy w.attempt = left + 1) :
    attemptsLeft setup.policy w.again.attempt = left := by
  simp only [attemptsLeft, Worker.again] at h ⊢
  omega

/-! ## Replies and what follows them -/

/-- An attempt does what its reply asks for, if all replies are carried out as they should be. -/
theorem attempt_replied_of (quiet : setup.IsQuiet) {left : Nat} {slot : Slot ι}
    (hslot : s.slot? i = some slot) (hreplied : ∀ reply (s : State σ ι), s.slot? i = some slot →
      Replied setup i c w reply s (replied setup i c left w reply s)) :
    ∃ shared, Replied setup i c w (setup.runner.start shared s.now c setup.policy.captureOutput).2 s
      (attempt setup i c left w s) := by
  obtain ⟨s₁, hremarked, heq⟩ := attempt_eq_replied quiet left w s (i := i) (c := c)
  obtain ⟨hnow, -, hplaces, hjournal⟩ := setLimit_frame setup i w.attempt s₁
  have hslot₁ : (s₁.attempting setup i c w).slot? i = some slot := by
    refine Eq.trans ?_ ((hremarked.slot? i).trans hslot)
    rw [State.slot?, State.slot?, State.attempting, hplaces]
  rw [heq, ← hremarked.now]
  refine ⟨s₁.shared, (hreplied _ _ hslot₁).of_grows (hnow.trans hremarked.now) fun allowed h _ ↦ ?_⟩
  exact (hremarked.grows h).trans (.of_journal hjournal)

/-- Whatever a turn makes of a reply, and of those that the attempts after it bring: by induction on
the attempts left. -/
theorem replied_replied (quiet : setup.IsQuiet) {left : Nat} {slot : Slot ι}
    (hleft : attemptsLeft setup.policy w.attempt = left) (hslot : s.slot? i = some slot) :
    Replied setup i c w reply s (replied setup i c left w reply s) := by
  induction left using Nat.strong_induction_on generalizing w reply s with
  | _ left ih =>
    have hnoted : (s.noteAll reply.notes).slot? i = some slot := by
      rw [State.noteAll_eq]
      exact hslot
    rw [replied]
    cases hnext : reply.next with
    | yields invocation =>
      rw [apply, hnext]
      exact ⟨⟨_, setWorker_slot? hnoted _, .yields hnext⟩,
        fun allowed _ h ↦ (Grows.noteAll s h).trans (.of_journal rfl)⟩
    | waits invocation keep alarms =>
      rw [apply, hnext]
      dsimp only
      rw [setAll_eq]
      exact ⟨⟨_, setWorker_slot? hnoted _, .waits hnext⟩,
        fun allowed _ h ↦ (Grows.noteAll s h).trans (.of_journal rfl)⟩
    | ends ending =>
      rw [apply, hnext]
      dsimp only
      obtain ⟨s₁, hremarked, hends⟩ := endAttempt_endsIn quiet left w ending
        { s.noteAll reply.notes with timers := dropAllTimers i (s.noteAll reply.notes).timers }
        (i := i) (c := c)
      have hs₁ : s₁.slot? i = some slot := (hremarked.slot? i).trans hnoted
      have hnow : s₁.now = s.now := hremarked.now.trans (by rw [State.noteAll_eq])
      refine Replied.of_grows (?_ : Replied setup i c w reply s₁ _) hnow fun allowed h hreply ↦
        ((Grows.noteAll s hreply).trans (.of_journal rfl)).trans (hremarked.grows h)
      generalize endAttempt setup i c (further setup i c left) w ending _ = s' at hends
      cases hends with
      | interrupted assess =>
        exact ⟨⟨_, finish_running hs₁ _ _, .interrupted hnext assess⟩, fun _ _ _ ↦ .of_journal rfl⟩
      | concludes assess last =>
        exact ⟨⟨_, finish_running hs₁ _ _, .concludes hnext assess fun h h' ↦ hleft.trans (last h h')⟩,
          fun _ _ _ ↦ .of_journal rfl⟩
      | @again answer l assess errored more =>
        subst more
        obtain ⟨shared, ⟨w', hw', hleads⟩, hgrows⟩ := attempt_replied_of quiet hs₁ fun _ _ hslot ↦
          ih l (Nat.lt_succ_self l) (attemptsLeft_again hleft) hslot
        exact ⟨⟨w', hw', .again shared hnext assess errored (by omega) hleads⟩,
          fun allowed h _ ↦ hgrows allowed h (h.start _ _ _)⟩

/-! ## The turn of a component -/

/-- What a turn of work is: a first attempt, or an invocation that goes on, or nothing. -/
inductive Works (setup : Setup σ ι) (i : Nat) (s : State σ ι) : State σ ι → Prop
  | idle (unqueued : ∀ c w invocation awaits rung interrupted, s.places[i]? = some ⟨c, .running w⟩ →
      w.stage ≠ .suspended invocation awaits ⟨true, rung, interrupted⟩) : Works setup i s s
  | starts {c : String} {w : Worker ι} (place : s.places[i]? = some ⟨c, .running w⟩)
    (stage : w.stage = .fresh) :
    Works setup i s (attempt setup i c (attemptsLeft setup.policy w.attempt) w s)
  | resumes {c : String} {w : Worker ι} {invocation : ι} {awaits rung : List Nat} {interrupted : Bool}
    (place : s.places[i]? = some ⟨c, .running w⟩)
    (stage : w.stage = .suspended invocation awaits ⟨true, rung, interrupted⟩) :
    Works setup i s (replied setup i c (attemptsLeft setup.policy w.attempt) w
      (setup.runner.resume s.shared s.now invocation ⟨rung, interrupted⟩).2
      { s with shared := (setup.runner.resume s.shared s.now invocation ⟨rung, interrupted⟩).1 })

theorem work_works (setup : Setup σ ι) (i : Nat) (s : State σ ι) : Works setup i s (work setup i s) := by
  unfold work
  split
  · next hplace =>
    split
    · next hstage => exact .starts hplace hstage
    · next hstage => exact .resumes hplace hstage
    · next hresumes =>
      refine .idle fun _ _ _ _ _ _ hplace' hstage ↦ ?_
      cases hplace.symm.trans hplace'
      exact hresumes _ _ _ _ hstage
  · next hplace => exact .idle fun _ _ _ _ _ _ hplace' ↦ absurd hplace' (hplace _ _)

/-- The replies that carry on with the work on a component. -/
inductive Setup.Answers (setup : Setup σ ι) (c : String) (w : Worker ι) : Reply ι Ending → Prop
  | starts (shared : σ) (now : Float) (stage : w.stage = .fresh) :
    setup.Answers c w (setup.runner.start shared now c setup.policy.captureOutput).2
  | resumes {invocation : ι} {awaits rung : List Nat} {interrupted : Bool} (shared : σ) (now : Float)
    (stage : w.stage = .suspended invocation awaits ⟨true, rung, interrupted⟩) :
    setup.Answers c w (setup.runner.resume shared now invocation ⟨rung, interrupted⟩).2

/-- A turn of work changes nothing, or it carries out a reply. -/
theorem work_cases (quiet : setup.IsQuiet) (i : Nat) (s : State σ ι) :
    work setup i s = s ∨ ∃ c w reply, s.places[i]? = some ⟨c, .running w⟩ ∧
      setup.Answers c w reply ∧ Replied setup i c w reply s (work setup i s) := by
  have hworks := work_works setup i s
  generalize work setup i s = s' at hworks
  have hslot {c : String} {w : Worker ι} (hplace : s.places[i]? = some ⟨c, .running w⟩) :
      s.slot? i = some (.running w) := State.slot?_eq_some.2 ⟨c, hplace⟩
  cases hworks with
  | idle => exact .inl rfl
  | starts place stage =>
    obtain ⟨shared, hreplied⟩ := attempt_replied_of quiet (hslot place) fun _ _ hslot ↦
      replied_replied quiet rfl hslot
    exact .inr ⟨_, _, _, place, .starts shared s.now stage, hreplied⟩
  | @resumes c w invocation awaits rung interrupted place stage =>
    refine .inr ⟨c, w, _, place, .resumes s.shared s.now stage, ?_⟩
    refine (replied_replied (s := { s with
      shared := (setup.runner.resume s.shared s.now invocation ⟨rung, interrupted⟩).1 })
      quiet rfl (hslot place)).of_grows rfl fun _ _ _ ↦ .of_journal rfl

end Testbed.Run

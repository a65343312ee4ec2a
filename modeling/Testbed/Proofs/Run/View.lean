import Testbed.Proofs.Run.Course
import Testbed.Proofs.Run.Moves

/-!
# Views of a place

What a place and its component have to do with a state of a scripted run: the slot, the turns and
timers about the place, the invocations for the component and the events about it.  A turn about a
place changes its own view as if nothing else existed, and no other view.
-/

namespace Testbed.Run

abbrev ScriptState := State Rehearsal.Shared Rehearsal.Invocation

structure View where
  now : Float
  slot : Option (Slot Rehearsal.Invocation)
  queue : List Turn
  next : List Turn
  timers : List Timer
  /-- How often the component was tested. -/
  calls : Nat
  /-- The events about the component, the last one first. -/
  events : List (Float × Event)

/-- The view of place `i`, at which component `c` is tested. -/
def State.view (s : ScriptState) (i : Nat) (c : String) : View where
  now := s.now
  slot := s.slot? i
  queue := s.queue.filter (·.place? = some i)
  next := s.next.filter (·.place? = some i)
  timers := s.timers.filter (·.turn.place? = some i)
  calls := s.shared.count c
  events := (Journal.events s.journal).filter (·.2.component = c)

@[ext]
theorem View.ext {v v' : View} (now : v.now = v'.now) (slot : v.slot = v'.slot)
    (queue : v.queue = v'.queue) (next : v.next = v'.next) (timers : v.timers = v'.timers)
    (calls : v.calls = v'.calls) (events : v.events = v'.events) : v = v' := by
  cases v
  cases v'
  simp_all

/-- A view after the clock has moved on. -/
def View.advanced (now : Float) (v : View) : View :=
  { v with
    now := now
    queue := v.next ++ (v.timers.filter (·.due ≤ now)).map (·.turn)
    next := []
    timers := v.timers.filter fun t ↦ ¬ t.due ≤ now }

section Operations

variable (s : ScriptState) (i j : Nat) (c : String)

theorem events_cons (e : Entry) (j : Journal) :
    Journal.events (e :: j) = (match e.note with
      | .progress event => [(e.time, event)]
      | _ => []) ++ Journal.events j := by
  rcases e with ⟨_, _ | _ | _ | _ | _ | _⟩ <;> rfl

theorem view_note_log (line : LogLine) : (s.note (.log line)).view i c = s.view i c := by
  simp [State.view, State.note, State.slot?, events_cons]

theorem view_note_progress (e : Event) :
    (s.note (.progress e)).view i c = { s.view i c with
      events := if e.component = c then (s.now, e) :: (s.view i c).events else (s.view i c).events } := by
  by_cases h : e.component = c <;> simp [State.view, State.note, State.slot?, events_cons, h]

theorem view_enqueue (t : Turn) :
    (s.enqueue t).view i c = { s.view i c with
      next := (s.view i c).next ++ if t.place? = some i then [t] else [] } := by
  by_cases h : t.place? = some i <;> simp [State.view, State.enqueue, State.slot?, h]

theorem view_set (delay : Float) (t : Turn) :
    (s.set delay t).view i c = { s.view i c with
      timers := (s.view i c).timers ++ if t.place? = some i then [⟨s.now + delay, t⟩] else [] } := by
  by_cases h : t.place? = some i <;> simp [State.view, State.set, State.slot?, h]

theorem view_setWorker (w : Worker Rehearsal.Invocation) :
    (s.setWorker j w).view i c = { s.view i c with
      slot := if j = i then (s.view i c).slot.map fun _ ↦ .running w else (s.view i c).slot } := by
  rw [State.view, State.setWorker, State.slot?_setSlot]
  rfl

theorem view_timers (timers : List Timer) :
    { s with timers := timers }.view i c = { s.view i c with
      timers := timers.filter (·.turn.place? = some i) } :=
  rfl

theorem view_shared (shared : Rehearsal.Shared) :
    { s with shared := shared }.view i c = { s.view i c with calls := shared.count c } :=
  rfl

theorem view_dropTimers (keep : List Nat) :
    { s with timers := dropTimers j keep s.timers }.view i c = { s.view i c with
      timers := dropTimers j keep (s.view i c).timers } := by
  rw [view_timers, dropTimers, List.filter_comm]
  rfl

theorem view_dropAllTimers :
    { s with timers := dropAllTimers j s.timers }.view i c = { s.view i c with
      timers := dropAllTimers j (s.view i c).timers } := by
  rw [view_timers, dropAllTimers, List.filter_comm]
  rfl

end Operations

/-! ## Attempts -/

variable {script : Script} {policy : Policy} {i : Nat} {c : String} {s : ScriptState}
  {w : Worker Rehearsal.Invocation}

theorem Script.setup_isQuiet (script : Script) (policy : Policy) : (script.setup policy).IsQuiet :=
  isQuiet_default _ _

@[simp]
theorem Script.setup_policy (script : Script) (policy : Policy) :
    (script.setup policy).policy = policy :=
  rfl

/-- The turns that the time limit of an attempt queues at once. -/
def limitTurns (policy : Policy) (i attempt : Nat) (now : Float) : List Turn :=
  match policy.timeout with
  | none => []
  | some limit => if now + limit ≤ now then [.expire i attempt] else []

/-- The timers that the time limit of an attempt sets. -/
def limitTimers (policy : Policy) (i attempt : Nat) (now : Float) : List Timer :=
  match policy.timeout with
  | none => []
  | some limit => if now + limit ≤ now then [] else [⟨now + limit, .expire i attempt⟩]

theorem view_setLimit (attempt : Nat) :
    (setLimit (script.setup policy) i attempt s).view i c = { s.view i c with
      next := (s.view i c).next ++ limitTurns policy i attempt s.now
      timers := (s.view i c).timers ++ limitTimers policy i attempt s.now } := by
  unfold setLimit limitTurns limitTimers
  rw [Script.setup_policy]
  cases policy.timeout with
  | none => simp
  | some limit => by_cases h : s.now + limit ≤ s.now <;> simp [h, view_enqueue, view_set]

/-- A view after an attempt has begun. -/
def View.begun (policy : Policy) (script : Script) (i : Nat) (c : String)
    (w : Worker Rehearsal.Invocation) (v : View) : View :=
  let cue := script.cue c v.calls
  { v with
    slot := some (.running { w with
      stage := if script.delay c ≤ 0 then .suspended (.waiting cue) [] { queued := true }
        else .suspended (.waiting cue) [0] {} })
    next := v.next ++ limitTurns policy i w.attempt v.now ++
      if script.delay c ≤ 0 then [.work i] else []
    timers := dropTimers i [] (v.timers ++ limitTimers policy i w.attempt v.now) ++
      if script.delay c ≤ 0 then [] else [⟨v.now + script.delay c, .ring i w.attempt 0⟩]
    calls := v.calls + 1
    events := (v.now, startedEvent c w.attempt) :: v.events }

theorem count_enter (shared : Rehearsal.Shared) (call : Call) (c : String) :
    (shared.enter call).count c = shared.count c + if call.component = c then 1 else 0 := by
  by_cases h : call.component = c <;> simp [Rehearsal.Shared.count, Rehearsal.Shared.enter, h]

/-- The state in which an attempt has its limit and the runner knows of its invocation. -/
def State.entered (script : Script) (policy : Policy) (i : Nat) (c : String) (attempt : Nat)
    (s : ScriptState) : ScriptState :=
  let s := setLimit (script.setup policy) i attempt s
  let s := { s with shared := s.shared.enter ⟨c, policy.captureOutput, s.now⟩ }
  { s with timers := dropTimers i [] s.timers }

theorem setLimit_shared {σ ι : Type} (setup : Setup σ ι) (i attempt : Nat) (s : State σ ι) :
    (setLimit setup i attempt s).shared = s.shared := by
  unfold setLimit
  split
  · rfl
  · split <;> rfl

/-- An invocation of a scripted runner waits for the delay of its component. -/
theorem startAttempt_scripted (s : ScriptState) :
    startAttempt (script.setup policy) i c w s =
      let s' := s.entered script policy i c w.attempt
      let cue := script.cue c (s.shared.count c)
      if script.delay c ≤ 0 then
        ((s'.setWorker i { w with
          stage := .suspended (.waiting cue) [] { queued := true } }).enqueue (.work i), none)
      else
        ((s'.set (script.delay c) (.ring i w.attempt 0)).setWorker i { w with
          stage := .suspended (.waiting cue) [0] {} }, none) := by
  have hcue (n : Nat) : (script.cue c n).delay = script.delay c := rfl
  rw [← setLimit_shared (script.setup policy) i w.attempt s]
  by_cases h : script.delay c ≤ 0 <;>
    simp [startAttempt, apply, Script.setup, Runner.scripted, Runner.rehearsed, Rehearsal.start,
      Rehearsal.sleep, hcue, h, State.noteAll, State.entered]

/-- A scripted invocation never ends at once. -/
theorem startAttempt_scripted_snd (script : Script) (policy : Policy) (i : Nat) (c : String)
    (w : Worker Rehearsal.Invocation) (s : ScriptState) :
    (startAttempt (script.setup policy) i c w s).2 = none := by
  rw [startAttempt_scripted]
  dsimp only
  split <;> rfl

/-- A scripted attempt begins with its event and waits then. -/
theorem attempt_scripted (left : Nat) (s : ScriptState) :
    attempt (script.setup policy) i c left w s = (startAttempt (script.setup policy) i c w
      ((s.note (.debug .run ("Progress: " ++ (startedEvent c w.attempt).detail))).note
        (.progress (startedEvent c w.attempt)))).1 := by
  rw [attempt_eq, (Script.setup_isQuiet script policy).emit]
  have hsnd (s : ScriptState) := startAttempt_scripted_snd script policy i c w s
  dsimp only
  split
  · next heq => exact (Prod.ext_iff.1 heq).1.symm
  · next heq => cases (hsnd _).symm.trans (Prod.ext_iff.1 heq).2

theorem view_entered (s : ScriptState) (attempt : Nat) :
    (s.entered script policy i c attempt).view i c = { s.view i c with
      next := (s.view i c).next ++ limitTurns policy i attempt s.now
      timers := dropTimers i [] ((s.view i c).timers ++ limitTimers policy i attempt s.now)
      calls := (s.view i c).calls + 1 } := by
  rw [State.entered, view_dropTimers, view_shared, view_setLimit, count_enter, setLimit_shared, if_pos rfl]
  rfl

theorem entered_now (s : ScriptState) (attempt : Nat) :
    (s.entered script policy i c attempt).now = s.now :=
  (setLimit_moves (script.setup policy) i attempt s).now

theorem view_attempt (left : Nat) (hslot : (s.slot? i).isSome = true) :
    (attempt (script.setup policy) i c left w s).view i c =
      (s.view i c).begun policy script i c w := by
  obtain ⟨slot, hslot⟩ := Option.isSome_iff_exists.1 hslot
  have hview : (s.view i c).slot = some slot := hslot
  rw [attempt_scripted, startAttempt_scripted]
  by_cases h : script.delay c ≤ 0
  · simp only [h, if_true, View.begun]
    rw [view_enqueue, view_setWorker, view_entered, view_note_progress, Note.debug, view_note_log]
    simp only [hview, Option.map_some, if_true, Turn.place?_work, List.append_nil, startedEvent]
    rfl
  · simp only [h, if_false, View.begun]
    rw [view_setWorker, view_set, view_entered, view_note_progress, Note.debug, view_note_log,
      entered_now]
    simp only [hview, Option.map_some, if_true, Turn.place?_ring, List.append_nil, startedEvent]
    rfl

/-! ## Ends of attempts -/

theorem view_noteAll {notes : List Note} (h : ∀ n ∈ notes, ∃ line, n = .log line) :
    (s.noteAll notes).view i c = s.view i c := by
  induction notes generalizing s with
  | nil => rfl
  | cons n notes ih =>
    obtain ⟨line, rfl⟩ := h n List.mem_cons_self
    have hrest := ih (s := s.note (.log line)) fun n hn ↦ h n (List.mem_cons_of_mem _ hn)
    rw [view_note_log] at hrest
    exact hrest

/-- A view after the last attempt counts. -/
def View.concluded (c : String) (w : Worker Rehearsal.Invocation) (answer : Answer) (v : View) :
    View :=
  { v with
    slot := some (.running { w with
      stage := .finished (.outcome {
        component := c
        status := answer.status
        duration := .real (v.now - w.started)
        diagnostics := answer.diagnostics
        attempts := w.attempt }) })
    events := (v.now, finishedEvent c w v.now answer.status) :: v.events }

/-- A view after an attempt has ended. -/
def View.ended (policy : Policy) (script : Script) (i : Nat) (c : String) (left : Nat)
    (w : Worker Rehearsal.Invocation) (ending : Ending) (v : View) : View :=
  let w := w.released
  match assess policy w.expired w.outstanding ending with
  | .interrupted => { v with slot := some (.running { w with stage := .finished .interrupted }) }
  | .counted answer retryable =>
    if answer.status = .errored ∧ retryable then
      match left with
      | 0 => v.concluded c w answer
      | _ + 1 => v.begun policy script i c
          { w with attempt := w.attempt + 1, expired := false, stage := .fresh }
    else v.concluded c w answer

theorem view_finish (f : Finish) (hslot : (s.slot? i).isSome = true) :
    (finish i w f s).view i c = { s.view i c with
      slot := some (.running { w with stage := .finished f }) } := by
  obtain ⟨slot, hslot⟩ := Option.isSome_iff_exists.1 hslot
  have hview : (s.view i c).slot = some slot := hslot
  rw [finish, view_enqueue, view_setWorker]
  simp [hview]

theorem view_conclude (answer : Answer) (hslot : (s.slot? i).isSome = true) :
    (conclude (script.setup policy) i c w answer s).view i c = (s.view i c).concluded c w answer := by
  rw [conclude, (Script.setup_isQuiet script policy).emit]
  dsimp only
  rw [view_finish _ (by exact hslot), view_note_progress, Note.debug, view_note_log]
  simp only [if_true]
  rfl

theorem view_endAttempt (left : Nat) (ending : Ending) (hslot : (s.slot? i).isSome = true) :
    (endAttempt (script.setup policy) i c (further (script.setup policy) i c left) w ending s).view
      i c = (s.view i c).ended policy script i c left w ending := by
  have hnotes (expired : Bool) (outstanding : Nat) :
      (s.noteAll (assessmentNotes policy expired outstanding c ending)).view i c = s.view i c :=
    view_noteAll (assessmentNotes_log _ _ _)
  have hslot' (expired : Bool) (outstanding : Nat) :
      ((s.noteAll (assessmentNotes policy expired outstanding c ending)).slot? i).isSome = true := by
    rw [State.noteAll_eq]
    exact hslot
  simp only [endAttempt, View.ended, Script.setup_policy]
  cases assess policy w.released.expired w.released.outstanding ending with
  | interrupted =>
    dsimp only
    rw [view_finish _ (hslot' _ _), hnotes]
  | counted answer retryable =>
    dsimp only
    split
    · cases left with
      | zero =>
        simp only [further]
        rw [view_conclude _ (hslot' _ _), hnotes]
      | succ left =>
        simp only [further]
        rw [view_attempt left (by exact hslot' _ _), Note.warning, view_note_log, hnotes]
    · rw [view_conclude _ (hslot' _ _), hnotes]

/-! ## Turns -/

/-- What an invocation says when it has its turn. -/
theorem work_suspended {cue : Cue} {awaits rung : List Nat} {interrupted : Bool}
    (hplace : s.places[i]? = some { component := c, slot := .running w })
    (hstage : w.stage = .suspended (.waiting cue) awaits { queued := true, rung, interrupted })
    (haftermath : cue.aftermath = none) :
    work (script.setup policy) i s =
      endAttempt (script.setup policy) i c
        (further (script.setup policy) i c (attemptsLeft policy w.attempt)) w
        (if interrupted then .interrupted else cue.ending)
        { s with shared := s.shared.leave, timers := dropAllTimers i s.timers } := by
  rw [work, hplace]
  dsimp only
  rw [hstage]
  cases interrupted <;>
    simp [Script.setup, Runner.scripted, Runner.rehearsed, Rehearsal.resume, haftermath, apply,
      State.noteAll]

theorem view_work_suspended (script : Script) (policy : Policy) {cue : Cue} {awaits rung : List Nat} {interrupted : Bool}
    (hplace : s.places[i]? = some { component := c, slot := .running w })
    (hstage : w.stage = .suspended (.waiting cue) awaits { queued := true, rung, interrupted })
    (haftermath : cue.aftermath = none) :
    (work (script.setup policy) i s).view i c =
      { s.view i c with timers := dropAllTimers i (s.view i c).timers }.ended policy script i c
        (attemptsLeft policy w.attempt) w (if interrupted then .interrupted else cue.ending) := by
  have hslot : s.slot? i = some (.running w) := State.slot?_eq_some.2 ⟨c, hplace⟩
  rw [work_suspended hplace hstage haftermath, view_endAttempt _ _ (by simp [State.slot?, hplace])]
  exact congrArg (View.ended policy script i c _ w _)
    (view_dropAllTimers { s with shared := s.shared.leave } i i c)

theorem view_work_fresh (script : Script) (policy : Policy) (hplace : s.places[i]? = some { component := c, slot := .running w })
    (hstage : w.stage = .fresh) :
    (work (script.setup policy) i s).view i c = (s.view i c).begun policy script i c w := by
  rw [work, hplace]
  dsimp only
  rw [hstage]
  exact view_attempt _ (by simp [State.slot?, hplace])

theorem view_ring (n alarm : Nat) (hslot : s.slot? i = some (.running w)) {awaits : List Nat}
    {invocation : Rehearsal.Invocation} {signals : Signals}
    (hstage : w.stage = .suspended invocation awaits signals) :
    (ring i n alarm s).view i c =
      if w.attempt = n ∧ alarm ∈ awaits then { s.view i c with
        slot := some (.running { w with stage := .suspended invocation awaits { signals with
          queued := true
          rung := signals.rung ++ [alarm] } })
        next := (s.view i c).next ++ if signals.queued then [] else [.work i] }
      else s.view i c := by
  have hview : (s.view i c).slot = some (.running w) := hslot
  rw [ring, State.worker?_eq_some.2 hslot]
  dsimp only
  rw [hstage]
  dsimp only
  split
  · cases signals.queued
    · simp only [Bool.false_eq_true, if_false, view_enqueue, view_setWorker]
      simp [hview]
    · simp only [if_true, view_setWorker]
      simp [hview]
  · rfl

theorem view_expire (n : Nat) (hslot : s.slot? i = some (.running w)) {awaits : List Nat}
    {invocation : Rehearsal.Invocation} {signals : Signals}
    (hstage : w.stage = .suspended invocation awaits signals) :
    (expire i n s).view i c =
      if w.attempt = n ∧ w.expired = false then { s.view i c with
        slot := some (.running { w with
          expired := true
          outstanding := w.outstanding + 1
          stage := .suspended invocation awaits { signals with queued := true, interrupted := true } })
        next := (s.view i c).next ++ if signals.queued then [] else [.work i] }
      else s.view i c := by
  have hview : (s.view i c).slot = some (.running w) := hslot
  obtain ⟨started, attempt, outstanding, expired, stage⟩ := w
  obtain rfl : stage = .suspended invocation awaits signals := hstage
  have hset (w : Worker Rehearsal.Invocation) : (s.setWorker i w).worker? i = some w := by
    rw [State.worker?_eq_some, State.setWorker, State.slot?_setSlot, if_pos rfl, hslot]
    rfl
  rw [expire, State.worker?_eq_some.2 hslot]
  cases expired
  · dsimp only
    simp only [Bool.not_false, and_true]
    split
    · rw [interrupt, hset]
      dsimp only
      cases signals.queued
      · simp only [Bool.false_eq_true, if_false, view_enqueue, view_setWorker]
        simp [hview]
      · simp only [if_true, view_setWorker]
        simp [hview]
    · rfl
  · simp

/-- Turns about a place without work underway do nothing. -/
theorem handle_inactive {σ ι : Type} {setup : Setup σ ι} {s : State σ ι} {t : Turn}
    (ht : t.place? = some i) (h : s.isActive i = false) : handle setup t s = s := by
  have hworker {w : Worker ι} (hw : s.worker? i = some w) : ∃ f, w.stage = .finished f := by
    rw [State.isActive, State.worker?_eq_some.1 hw] at h
    rcases w with ⟨_, _, _, _, _ | _ | f⟩
    · cases h
    · cases h
    · exact ⟨f, rfl⟩
  cases t with
  | work j =>
    obtain rfl : j = i := by simpa using ht
    rw [handle, work]
    split
    · next component w hplace =>
      obtain ⟨f, hf⟩ := hworker (State.worker?_eq_some.2 (State.slot?_eq_some.2 ⟨component, hplace⟩))
      rw [hf]
    · rfl
  | expire j n =>
    obtain rfl : j = i := by simpa using ht
    rw [handle, expire]
    split
    · next w hw =>
      obtain ⟨f, hf⟩ := hworker hw
      rw [hf]
    · rfl
  | ring j n alarm =>
    obtain rfl : j = i := by simpa using ht
    rw [handle, ring]
    split
    · next w hw =>
      obtain ⟨f, hf⟩ := hworker hw
      rw [hf]
    · rfl
  | cancel | watch | notice | coordinate => cases ht

/-- The clock moves on in every view. -/
theorem view_advance (s : ScriptState) (i : Nat) (c : String) :
    s.advance.view i c = (s.view i c).advanced s.nextInstant := by
  have hfilter (timers : List Timer) (now : Float) :
      ((timers.filter (·.due ≤ now)).map (·.turn)).filter (·.place? = some i) =
        ((timers.filter (·.turn.place? = some i)).filter (·.due ≤ now)).map (·.turn) := by
    rw [List.filter_map, List.filter_comm]
    rfl
  refine View.ext rfl rfl ?_ rfl ?_ rfl rfl
  · simp only [State.view, State.advance, View.advanced, List.partition_eq_filter_filter,
      List.filter_append, hfilter]
  · simp only [State.view, State.advance, View.advanced, List.partition_eq_filter_filter]
    rw [List.filter_comm]
    congr 1
    funext t
    simp

/-! ## Other places -/

/-- The invocations for a component and the events about it are the same. -/
structure Undisturbed (c : String) (s s' : ScriptState) : Prop where
  calls : s'.shared.count c = s.shared.count c
  events : (Journal.events s'.journal).filter (·.2.component = c) =
    (Journal.events s.journal).filter (·.2.component = c)

theorem Undisturbed.trans {s s' s'' : ScriptState} (h : Undisturbed c s s') (h' : Undisturbed c s' s'') :
    Undisturbed c s s'' :=
  ⟨h'.calls.trans h.calls, h'.events.trans h.events⟩

namespace Undisturbed

variable {c' : String}

theorem note_log (s : ScriptState) (line : LogLine) : Undisturbed c s (s.note (.log line)) :=
  ⟨rfl, by simp [State.note, events_cons]⟩

theorem note_progress (s : ScriptState) {e : Event} (h : e.component ≠ c) :
    Undisturbed c s (s.note (.progress e)) :=
  ⟨rfl, by simp [State.note, events_cons, h]⟩

theorem noteAll (s : ScriptState) {notes : List Note} (h : ∀ n ∈ notes, ∃ line, n = .log line) :
    Undisturbed c s (s.noteAll notes) := by
  induction notes generalizing s with
  | nil => exact ⟨rfl, rfl⟩
  | cons n notes ih =>
    obtain ⟨line, rfl⟩ := h n List.mem_cons_self
    exact (note_log s line).trans (ih _ fun n hn ↦ h n (List.mem_cons_of_mem _ hn))

theorem emit (s : ScriptState) {e : Event} (h : e.component ≠ c) :
    Undisturbed c s ((script.setup policy).emit s e).1 := by
  rw [(Script.setup_isQuiet script policy).emit]
  exact (note_log s _).trans (note_progress _ h)

theorem conclude (h : c' ≠ c) (answer : Answer) (s : ScriptState) :
    Undisturbed c s (conclude (script.setup policy) i c' w answer s) := by
  have hemit : Undisturbed c s
      ((script.setup policy).emit s (finishedEvent c' w s.now answer.status)).1 := emit s h
  rw [Run.conclude, (Script.setup_isQuiet script policy).emit]
  rw [(Script.setup_isQuiet script policy).emit] at hemit
  exact ⟨hemit.calls, hemit.events⟩

theorem attempt (h : c' ≠ c) (left : Nat) (w : Worker Rehearsal.Invocation) (s : ScriptState) :
    Undisturbed c s (attempt (script.setup policy) i c' left w s) := by
  have hemit : Undisturbed c s ((script.setup policy).emit s (startedEvent c' w.attempt)).1 := emit s h
  have hjournal (t : ScriptState) (attempt : Nat) :
      (t.entered script policy i c' attempt).journal = t.journal := by
    change (setLimit (script.setup policy) i attempt t).journal = t.journal
    unfold setLimit
    split
    · rfl
    · split <;> rfl
  have hcalls (t : ScriptState) (attempt : Nat) :
      (t.entered script policy i c' attempt).shared.count c = t.shared.count c := by
    change ((setLimit (script.setup policy) i attempt t).shared.enter _).count c = _
    rw [setLimit_shared, count_enter, if_neg h, Nat.add_zero]
  rw [(Script.setup_isQuiet script policy).emit] at hemit
  rw [attempt_eq, (Script.setup_isQuiet script policy).emit]
  dsimp only
  rw [startAttempt_scripted]
  by_cases hd : script.delay c' ≤ 0
  · simp only [hd, if_true]
    exact hemit.trans ⟨hcalls _ _, congrArg (fun j ↦ (Journal.events j).filter _) (hjournal _ _)⟩
  · simp only [hd, if_false]
    exact hemit.trans ⟨hcalls _ _, congrArg (fun j ↦ (Journal.events j).filter _) (hjournal _ _)⟩

theorem endAttempt (h : c' ≠ c) (left : Nat) (w : Worker Rehearsal.Invocation) (ending : Ending)
    (s : ScriptState) :
    Undisturbed c s (endAttempt (script.setup policy) i c'
      (further (script.setup policy) i c' left) w ending s) := by
  have hnotes : Undisturbed c s (s.noteAll
      (assessmentNotes policy w.released.expired w.released.outstanding c' ending)) :=
    noteAll s (assessmentNotes_log _ _ _)
  rw [Run.endAttempt]
  simp only [Script.setup_policy]
  refine hnotes.trans ?_
  cases assess policy w.released.expired w.released.outstanding ending with
  | interrupted => exact ⟨rfl, rfl⟩
  | counted answer retryable =>
    dsimp only
    split
    · cases left with
      | zero => exact conclude h answer _
      | succ left => exact (note_log _ _).trans (attempt h left _ _)
    · exact conclude h answer _

theorem apply {reply : Reply Rehearsal.Invocation Ending} (h : reply.notes = [])
    (s : ScriptState) : Undisturbed c s (apply i w reply s).1 := by
  have hset (alarms : List (Nat × Float)) (s : ScriptState) :
      Undisturbed c s (alarms.foldl (fun s a ↦ s.set a.2 (.ring i w.attempt a.1)) s) := by
    induction alarms generalizing s with
    | nil => exact ⟨rfl, rfl⟩
    | cons a alarms ih =>
      have htail := ih (s.set a.2 (.ring i w.attempt a.1))
      exact ⟨htail.calls, htail.events⟩
  unfold Run.apply
  rw [h]
  split
  · exact ⟨rfl, rfl⟩
  · exact ⟨rfl, rfl⟩
  · next keep alarms _ =>
    have halarms := hset alarms { s with timers := dropTimers i keep s.timers }
    exact ⟨halarms.calls, halarms.events⟩

theorem work (h : ∀ p, s.places[i]? = some p → p.component ≠ c) :
    Undisturbed c s (work (script.setup policy) i s) := by
  have hresume (shared : Rehearsal.Shared) (now : Float) (invocation : Rehearsal.Invocation)
      (wake : Wake) : (((script.setup policy).runner.resume shared now invocation wake).1.count c =
        shared.count c) ∧ ((script.setup policy).runner.resume shared now invocation wake).2.notes = [] := by
    change (Rehearsal.resume shared invocation wake).1.count c = _ ∧ _
    unfold Script.setup Runner.scripted Runner.rehearsed Rehearsal.resume
    dsimp only
    split
    · exact ⟨rfl, rfl⟩
    · split
      · exact ⟨rfl, rfl⟩
      · split <;> exact ⟨rfl, rfl⟩
    · exact ⟨rfl, rfl⟩
    · exact ⟨rfl, rfl⟩
  unfold Run.work
  split
  · next component w hplace =>
    have hne : component ≠ c := h _ hplace
    split
    · exact attempt hne _ w s
    · next invocation _ rung interrupted _ =>
      obtain ⟨hcount, hnotes⟩ :=
        hresume s.shared s.now invocation { rung := rung, interrupted := interrupted }
      have happly := (show Undisturbed c s { s with shared := _ } from ⟨hcount, rfl⟩).trans
        (apply (i := i) (w := w) hnotes _)
      dsimp only
      split
      · next heq => rwa [heq] at happly
      · next heq =>
        rw [heq] at happly
        exact happly.trans (endAttempt hne _ w _ _)
    · exact ⟨rfl, rfl⟩
  · exact ⟨rfl, rfl⟩

theorem interrupt (i : Nat) (s : ScriptState) : Undisturbed c s (interrupt i s) := by
  unfold Run.interrupt
  split
  · split
    · dsimp only
      split <;> exact ⟨rfl, rfl⟩
    · exact ⟨rfl, rfl⟩
  · exact ⟨rfl, rfl⟩

theorem handle {t : Turn} (ht : t.place? = some i)
    (h : ∀ p, s.places[i]? = some p → p.component ≠ c) :
    Undisturbed c s (handle (script.setup policy) t s) := by
  cases t with
  | work j =>
    obtain rfl : j = i := by simpa using ht
    exact work h
  | expire j n =>
    simp only [Run.handle, expire]
    split
    · split
      · split
        · exact (show Undisturbed c s (s.setWorker j _) from ⟨rfl, rfl⟩).trans (interrupt j _)
        · exact ⟨rfl, rfl⟩
      · exact ⟨rfl, rfl⟩
    · exact ⟨rfl, rfl⟩
  | ring j n alarm =>
    simp only [Run.handle, ring]
    split
    · split
      · split
        · split <;> exact ⟨rfl, rfl⟩
        · exact ⟨rfl, rfl⟩
      · exact ⟨rfl, rfl⟩
    · exact ⟨rfl, rfl⟩
  | cancel | watch | notice | coordinate => cases ht

end Undisturbed

/-- A turn about a place changes no other view. -/
theorem view_other {t : Turn} {j : Nat} (ht : t.place? = some i) (hij : j ≠ i)
    (h : ∀ p, s.places[i]? = some p → p.component ≠ c) :
    (handle (script.setup policy) t s).view j c = s.view j c := by
  have hturned := handle_turned (Script.setup_isQuiet script policy) ht s
  have hundisturbed : Undisturbed c s (handle (script.setup policy) t s) := .handle ht h
  refine View.ext hturned.now (hturned.slot?_ne hij) ?_ ?_ ?_ hundisturbed.calls hundisturbed.events
  · exact congrArg (List.filter _) hturned.queue
  · obtain ⟨new, hnew, hi⟩ := hturned.next
    have hnone : new.filter (·.place? = some j) = [] := by
      rw [List.filter_eq_nil_iff]
      intro u hu
      obtain hu | rfl := hi u hu
      · simpa [hu] using fun h ↦ hij h.symm
      · simp
    change List.filter _ _ = List.filter _ _
    rw [hnew, List.filter_append, hnone, List.append_nil]
  · have hfilter (timers : List Timer) : timers.filter (·.turn.place? = some j) =
        (timers.filter (·.turn.place? ≠ some i)).filter (·.turn.place? = some j) := by
      rw [List.filter_filter]
      refine List.filter_congr fun u _ ↦ ?_
      by_cases hu : u.turn.place? = some j <;> simp [hu, hij]
    change List.filter _ _ = List.filter _ _
    rw [hfilter, hturned.timers, ← hfilter]

end Testbed.Run

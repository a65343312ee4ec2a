import Testbed.Proofs.Run.Coordination

/-!
# Control

The coordinator always waits for something that is going to happen.  Which turns it can count on
depends on what it is about, and the invariant is stated for each of its stages.  It holds for every
runner as long as the listener only listens; it is what makes a run end with all work ended.
-/

namespace Testbed.Run

variable {σ ι : Type} {setup : Setup σ ι}

/-- The first attempts that are still to be made precede a turn. -/
def State.FreshBefore (s : State σ ι) (turn : Turn) : Prop :=
  ∃ pre post, s.turns = pre ++ post ∧ (∀ i, s.isFresh i = true → .work i ∈ pre) ∧ turn ∉ pre

/-- The coordinator waits for a notice. -/
structure Waiting (s : State σ ι) : Prop where
  running : ∃ i, (s.slot? i).any Slot.isRunning = true
  quiet : .coordinate ∉ s.turns
  noticed : ∀ i f, s.finish? i = some f → .notice s.epoch ∈ s.turns
  reason : .notice s.epoch ∈ s.turns → s.cancelled = true ∨ ∃ i f, s.finish? i = some f
  cancelled : s.cancelled = true → .watch ∈ s.turns ∨ .notice s.epoch ∈ s.turns
  fresh : s.FreshBefore (.notice s.epoch)

/-- The coordinator was told, and its turn is pending. -/
structure Woken (s : State σ ι) : Prop where
  due : s.turns.count .coordinate = 1
  reason : s.cancelled = true ∨ ∃ i f, s.finish? i = some f
  fresh : s.FreshBefore .coordinate

/-- The coordinator waits for the end of all interrupted work. -/
structure Draining (left : Nat) (s : State σ ι) : Prop where
  due : s.turns.count .coordinate = if left = 0 then 1 else 0
  left_eq : left = s.activeCount + s.turns.count (.notice s.epoch)
  fresh : ∀ i, s.isFresh i = false

def State.Controlled (s : State σ ι) : Prop :=
  match s.coordinator with
  | .waiting false => Waiting s
  | .waiting true => Woken s
  | .draining left _ => Draining left s
  | .done _ => s.activeCount = 0

structure Control (s : State σ ι) : Prop where
  timers : ∀ t ∈ s.timers, t.turn.place? = none → t.turn = .cancel
  epochs : ∀ e, .notice e ∈ s.turns → e ≤ s.epoch
  watched : s.watching = true ∨ s.cancelled = true ∨ .watch ∈ s.turns
  controlled : s.Controlled

/-! ## Taking a turn -/

/-- A state in which a further turn is the first one pending. -/
def State.before (t : Turn) (s : State σ ι) : State σ ι :=
  { s with queue := t :: s.queue }

theorem State.eq_before {s : State σ ι} {t : Turn} {queue : List Turn} (h : s.queue = t :: queue) :
    s = State.before t { s with queue := queue } := by
  rw [before, ← h]

@[simp]
theorem State.turns_before (t : Turn) (s : State σ ι) : (s.before t).turns = t :: s.turns :=
  rfl

@[simp]
theorem State.coordinator_before (t : Turn) (s : State σ ι) :
    (s.before t).coordinator = s.coordinator :=
  rfl

@[simp]
theorem State.isFresh_before (t : Turn) (s : State σ ι) (i : Nat) :
    (s.before t).isFresh i = s.isFresh i :=
  rfl

variable {s s' : State σ ι} {t : Turn} {i : Nat}

theorem State.mem_of_before {turn : Turn} (hne : t ≠ turn) (h : turn ∈ (s.before t).turns) :
    turn ∈ s.turns :=
  (List.mem_cons.1 h).resolve_left hne.symm

theorem State.count_before {turn : Turn} (hne : t ≠ turn) :
    (s.before t).turns.count turn = s.turns.count turn :=
  List.count_cons_of_ne hne

/-- A turn that tells the coordinator nothing: one about a place, or the cancellation. -/
def Turn.Silent (i : Nat) (t : Turn) : Prop :=
  t.place? = some i ∨ t = .cancel

theorem Turn.Silent.ne_watch (h : t.Silent i) : t ≠ .watch := by
  rintro rfl
  obtain h | h := h <;> cases h

theorem Turn.Silent.ne_notice (h : t.Silent i) (e : Nat) : t ≠ .notice e := by
  rintro rfl
  obtain h | h := h <;> cases h

theorem Turn.Silent.ne_coordinate (h : t.Silent i) : t ≠ .coordinate := by
  rintro rfl
  obtain h | h := h <;> cases h

namespace State.FreshBefore

/-- A turn is taken and others are queued.  If it is the first attempt at a component, then the
attempt is made. -/
theorem step {turn : Turn} (h : (s.before t).FreshBefore turn)
    (hturns : ∃ new, s'.turns = s.turns ++ new)
    (hfresh : ∀ j, s'.isFresh j = true → s.isFresh j = true ∧ t ≠ .work j) :
    s'.FreshBefore turn := by
  obtain ⟨pre, post, hpre, hwork, hturn⟩ := h
  obtain ⟨new, hnew⟩ := hturns
  cases pre with
  | nil =>
    refine ⟨[], s'.turns, rfl, fun j hj ↦ ?_, List.not_mem_nil⟩
    cases hwork j (hfresh j hj).1
  | cons u pre =>
    obtain ⟨rfl, hrest⟩ : t = u ∧ s.turns = pre ++ post := by simpa using hpre
    refine ⟨pre, post ++ new, by rw [hnew, hrest, List.append_assoc], fun j hj ↦ ?_, ?_⟩
    · obtain ⟨hj, hne⟩ := hfresh j hj
      exact (List.mem_cons.1 (hwork j hj)).resolve_left hne.symm
    · exact fun h ↦ hturn (List.mem_cons_of_mem _ h)

/-- Nothing precedes the turn that is taken. -/
theorem not_fresh (h : (s.before t).FreshBefore t) (j : Nat) : s.isFresh j = false := by
  obtain ⟨pre, post, hpre, hwork, hturn⟩ := h
  cases pre with
  | nil =>
    by_contra hj
    cases hwork j (by rw [isFresh_before]; simpa using hj)
  | cons u pre =>
    obtain ⟨rfl, -⟩ : t = u ∧ s.turns = pre ++ post := by simpa using hpre
    cases hturn List.mem_cons_self

theorem of_not_fresh (turn : Turn) (h : ∀ j, s.isFresh j = false) : s.FreshBefore turn :=
  ⟨[], s.turns, rfl, fun j hj ↦ by simp [h j] at hj, List.not_mem_nil⟩

theorem of_not_mem {turn : Turn} (h : ∀ j, s.isFresh j = true → .work j ∈ s.turns)
    (hturn : turn ∉ s.turns) : s.FreshBefore turn :=
  ⟨s.turns, [], by simp, h, hturn⟩

end State.FreshBefore

/-! ## Turns about a place -/

section Turned

variable (hi : t.Silent i) (h : Turned i s s') (hfresh : t = .work i → s'.isFresh i = false)
include hi h hfresh

theorem Turned.fresh_of (j : Nat) (hj : s'.isFresh j = true) : s.isFresh j = true ∧ t ≠ .work j := by
  refine ⟨h.isFresh_of hj, fun ht ↦ ?_⟩
  subst ht
  obtain rfl : j = i := by simpa [Turn.Silent] using hi
  simp [hfresh rfl] at hj

theorem Turned.freshBefore {turn : Turn} (hs : (s.before t).FreshBefore turn) :
    s'.FreshBefore turn := by
  obtain ⟨new, hnew, -⟩ := h.turns
  exact hs.step ⟨new, hnew⟩ (h.fresh_of hi hfresh)

omit hi hfresh in
theorem Turned.mem_turns {turn : Turn} (hturn : turn ∈ s.turns) : turn ∈ s'.turns := by
  obtain ⟨new, hnew, -⟩ := h.turns
  rw [hnew]
  exact List.mem_append_left _ hturn

omit hi hfresh in
theorem Turned.finish?_kept {j : Nat} {f : Finish} (hf : s.finish? j = some f) :
    s'.finish? j = some f := by
  obtain hj | ⟨hj, -⟩ := h.finish? j
  · rw [hj, hf]
  · rw [hf] at hj
    cases hj

omit hi hfresh in
theorem Turned.count_coordinate : s'.turns.count .coordinate = s.turns.count .coordinate := by
  obtain ⟨new, hnew, hnews⟩ := h.turns
  have hcount : new.count .coordinate = 0 :=
    List.count_eq_zero.2 fun hc ↦ by obtain hc | hc := hnews _ hc <;> cases hc
  rw [hnew, List.count_append, hcount, Nat.add_zero]

theorem Waiting.turned (hs : Waiting (s.before t)) : Waiting s' where
  running := by
    obtain ⟨j, hj⟩ := hs.running
    exact ⟨j, (h.isRunning j).trans hj⟩
  quiet := by
    rw [← List.count_eq_zero, h.count_coordinate, List.count_eq_zero]
    exact fun hc ↦ hs.quiet (List.mem_cons_of_mem t hc)
  noticed j f hf := by
    rw [h.epoch]
    obtain hj | ⟨-, hj⟩ := h.finish? j
    · exact h.mem_turns (State.mem_of_before (hi.ne_notice _) (hs.noticed j f (hj.symm.trans hf)))
    · exact hj
  reason hn := by
    rw [h.epoch] at hn
    rw [h.cancelled]
    obtain hn | hn := h.exists_finish hn
    · obtain hc | ⟨j, f, hf⟩ := hs.reason (List.mem_cons_of_mem t hn)
      · exact .inl hc
      · exact .inr ⟨j, f, h.finish?_kept hf⟩
    · exact .inr hn
  cancelled hc := by
    rw [h.cancelled] at hc
    rw [h.epoch]
    exact (hs.cancelled hc).imp (fun hw ↦ h.mem_turns (State.mem_of_before hi.ne_watch hw))
      fun hn ↦ h.mem_turns (State.mem_of_before (hi.ne_notice _) hn)
  fresh := by
    rw [h.epoch]
    exact h.freshBefore hi hfresh hs.fresh

theorem Woken.turned (hs : Woken (s.before t)) : Woken s' where
  due := by
    rw [h.count_coordinate, ← hs.due, State.count_before hi.ne_coordinate]
  reason := by
    rw [h.cancelled]
    exact hs.reason.imp_right fun ⟨j, f, hf⟩ ↦ ⟨j, f, h.finish?_kept hf⟩
  fresh := h.freshBefore hi hfresh hs.fresh

omit hfresh in
theorem Draining.turned {left : Nat} (hs : Draining left (s.before t)) : Draining left s' where
  due := by
    rw [h.count_coordinate, ← hs.due, State.count_before hi.ne_coordinate]
  left_eq := by
    rw [h.epoch, h.activeCount_add, hs.left_eq, State.count_before (hi.ne_notice _)]
    rfl
  fresh j := by
    by_contra hj
    have := hs.fresh j
    rw [show (s.before t).isFresh j = s.isFresh j from rfl, h.isFresh_of (by simpa using hj)] at this
    cases this

theorem Control.turned (hs : Control (s.before t)) (hdone : s.isDone = false) : Control s' where
  timers u hu hplace := by
    refine hs.timers u ?_ hplace
    have hmem : u ∈ s'.timers.filter (·.turn.place? ≠ some i) := by simp [hu, hplace]
    rw [h.timers] at hmem
    exact (List.mem_filter.1 hmem).1
  epochs e he := by
    obtain ⟨new, hnew, hnews⟩ := h.turns
    rw [h.epoch]
    rw [hnew, List.mem_append] at he
    obtain he | he := he
    · exact hs.epochs e (List.mem_cons_of_mem t he)
    · obtain he | he := hnews _ he
      · cases he
      · exact (Turn.notice.inj he).le
  watched := by
    rw [h.watching, h.cancelled]
    exact hs.watched.imp_right
      (Or.imp_right fun hw ↦ h.mem_turns (State.mem_of_before hi.ne_watch hw))
  controlled := by
    have hc := hs.controlled
    rw [State.Controlled, h.coordinator]
    rw [State.Controlled, State.coordinator_before] at hc
    split at hc
    · next hco => exact hc.turned hi h hfresh
    · next hco => exact hc.turned hi h hfresh
    · next hco => exact hc.turned hi h
    · next hco => simp [State.isDone, hco] at hdone

end Turned

/-! ## Further turns -/

/-- Turns are added that tell the coordinator nothing, or let it look for the cancellation. -/
structure Appended (new : List Turn) (s s' : State σ ι) : Prop where
  turns : s'.turns = s.turns ++ new
  news : ∀ t ∈ new, t ≠ .coordinate ∧ ∀ e, t ≠ .notice e
  places : s'.places = s.places
  cancelled : s'.cancelled = s.cancelled
  coordinator : s'.coordinator = s.coordinator
  epoch : s'.epoch = s.epoch

section Appended

variable {new : List Turn} (h : Appended new s s')
include h

theorem Appended.mem_turns {turn : Turn} (hturn : turn ∈ s.turns) : turn ∈ s'.turns := by
  rw [h.turns]
  exact List.mem_append_left new hturn

theorem Appended.notice_mem {e : Nat} (hturn : .notice e ∈ s'.turns) : .notice e ∈ s.turns := by
  rw [h.turns] at hturn
  exact (List.mem_append.1 hturn).resolve_right fun hturn ↦ (h.news _ hturn).2 e rfl

theorem Appended.count_coordinate : s'.turns.count .coordinate = s.turns.count .coordinate := by
  rw [h.turns, List.count_append, List.count_eq_zero.2 fun hc ↦ (h.news _ hc).1 rfl, Nat.add_zero]

theorem Appended.count_notice (e : Nat) : s'.turns.count (.notice e) = s.turns.count (.notice e) := by
  rw [h.turns, List.count_append, List.count_eq_zero.2 fun hn ↦ (h.news _ hn).2 e rfl, Nat.add_zero]

theorem Appended.slot? (j : Nat) : s'.slot? j = s.slot? j := by
  rw [State.slot?, h.places, State.slot?]

theorem Appended.finish? (j : Nat) : s'.finish? j = s.finish? j := by
  rw [State.finish?, h.slot?, State.finish?]

theorem Appended.isFresh (j : Nat) : s'.isFresh j = s.isFresh j := by
  rw [State.isFresh, h.slot?, State.isFresh]

theorem Appended.activeCount : s'.activeCount = s.activeCount := by
  rw [State.activeCount, h.places, State.activeCount]

theorem Appended.freshBefore {turn : Turn} (hs : s.FreshBefore turn) : s'.FreshBefore turn := by
  obtain ⟨pre, post, hpre, hwork, hturn⟩ := hs
  refine ⟨pre, post ++ new, by rw [h.turns, hpre, List.append_assoc], fun j hj ↦ hwork j ?_, hturn⟩
  rwa [← h.isFresh]

theorem Waiting.append (hs : Waiting s) : Waiting s' where
  running := hs.running.imp fun j hj ↦ by rwa [h.slot?]
  quiet := by
    rw [← List.count_eq_zero, h.count_coordinate, List.count_eq_zero]
    exact hs.quiet
  noticed j f hf := by
    rw [h.epoch]
    exact h.mem_turns (hs.noticed j f (by rwa [← h.finish?]))
  reason hn := by
    rw [h.epoch] at hn
    rw [h.cancelled]
    exact (hs.reason (h.notice_mem hn)).imp_right fun ⟨j, f, hf⟩ ↦ ⟨j, f, by rwa [h.finish?]⟩
  cancelled hc := by
    rw [h.cancelled] at hc
    rw [h.epoch]
    exact (hs.cancelled hc).imp h.mem_turns h.mem_turns
  fresh := by
    rw [h.epoch]
    exact h.freshBefore hs.fresh

theorem Woken.append (hs : Woken s) : Woken s' where
  due := by rw [h.count_coordinate, hs.due]
  reason := by
    rw [h.cancelled]
    exact hs.reason.imp_right fun ⟨j, f, hf⟩ ↦ ⟨j, f, by rwa [h.finish?]⟩
  fresh := h.freshBefore hs.fresh

theorem Draining.append {left : Nat} (hs : Draining left s) : Draining left s' where
  due := by rw [h.count_coordinate, hs.due]
  left_eq := by rw [h.epoch, h.count_notice, h.activeCount, hs.left_eq]
  fresh j := by rw [h.isFresh, hs.fresh]

theorem State.Controlled.append (hs : s.Controlled) : s'.Controlled := by
  rw [State.Controlled] at hs ⊢
  rw [h.coordinator]
  split at hs
  · exact hs.append h
  · exact hs.append h
  · exact hs.append h
  · rwa [h.activeCount]

theorem Control.append (hs : Control s) (htimers : ∀ t ∈ s'.timers, t ∈ s.timers)
    (hwatching : s'.watching = s.watching) : Control s' where
  timers t ht := hs.timers t (htimers t ht)
  epochs e he := by
    rw [h.epoch]
    exact hs.epochs e (h.notice_mem he)
  watched := by
    rw [hwatching, h.cancelled]
    exact hs.watched.imp_right (Or.imp_right h.mem_turns)
  controlled := hs.controlled.append h

end Appended

theorem Control.advance (hs : Control s) (hqueue : s.queue = []) : Control s.advance := by
  have happended : Appended ((s.timers.filter (·.due ≤ s.nextInstant)).map (·.turn)) s s.advance := by
    refine ⟨?_, fun t ht ↦ ?_, rfl, rfl, rfl, rfl⟩
    · simp [State.advance, State.turns, hqueue, List.partition_eq_filter_filter]
    · obtain ⟨u, hu, rfl⟩ := List.mem_map.1 ht
      have hcancel := hs.timers u (List.mem_filter.1 hu).1
      constructor
      · intro h
        cases h ▸ hcancel (by rw [h]; rfl)
      · intro e h
        cases h ▸ hcancel (by rw [h]; rfl)
  refine hs.append happended (fun t ht ↦ ?_) rfl
  simp only [State.advance, List.partition_eq_filter_filter] at ht
  exact (List.mem_filter.1 ht).1

/-! ## Turns about the run -/

/-- The cancellation of a run whose coordinator has not looked for it yet. -/
theorem Control.cancelled (hs : Control s) (hwatch : .watch ∈ s.turns) :
    Control { s with cancelled := true } := by
  refine ⟨hs.timers, hs.epochs, .inr (.inl rfl), ?_⟩
  have hc := hs.controlled
  rw [State.Controlled] at hc ⊢
  dsimp only
  split at hc
  · exact ⟨hc.running, hc.quiet, hc.noticed, fun _ ↦ .inl rfl, fun _ ↦ .inl hwatch, hc.fresh⟩
  · exact ⟨hc.due, .inl rfl, hc.fresh⟩
  · exact ⟨hc.due, hc.left_eq, hc.fresh⟩
  · exact hc

theorem Control.cancel (hs : Control s) : Control s.cancel := by
  unfold State.cancel
  split
  · exact hs
  · next hcancelled =>
    dsimp only
    split
    · have happended : Appended [.watch] s (s.enqueue .watch) :=
        ⟨s.turns_enqueue .watch, by simp, rfl, rfl, rfl, rfl⟩
      exact (hs.append happended (fun _ ↦ id) rfl).cancelled (by simp)
    · next hwatching => exact hs.cancelled ((hs.watched.resolve_left hwatching).resolve_left hcancelled)

/-- A turn is taken that the coordinator does not count on. -/
theorem State.Controlled.taken (hs : (s.before t).Controlled) (hcoordinate : t ≠ .coordinate)
    (hnotice : t ≠ .notice s.epoch) (hwork : ∀ j, t ≠ .work j)
    (hwatch : s.coordinator = .waiting false → s.cancelled = true → t ≠ .watch) : s.Controlled := by
  have hfresh {turn : Turn} (h : (s.before t).FreshBefore turn) : s.FreshBefore turn :=
    h.step ⟨[], by simp⟩ fun j hj ↦ ⟨hj, hwork j⟩
  rw [State.Controlled, State.coordinator_before] at hs
  rw [State.Controlled]
  split at hs
  · next hco =>
    exact ⟨hs.running, fun h ↦ hs.quiet (List.mem_cons_of_mem _ h),
      fun j f hf ↦ State.mem_of_before hnotice (hs.noticed j f hf),
      fun h ↦ hs.reason (List.mem_cons_of_mem _ h),
      fun h ↦ (hs.cancelled h).imp (State.mem_of_before (hwatch hco h)) (State.mem_of_before hnotice),
      hfresh hs.fresh⟩
  · exact ⟨(State.count_before hcoordinate).symm.trans hs.due, hs.reason, hfresh hs.fresh⟩
  · exact ⟨(State.count_before hcoordinate).symm.trans hs.due,
      hs.left_eq.trans (congrArg _ (State.count_before hnotice)), hs.fresh⟩
  · exact hs

section Watched

variable (hcancelled : s.cancelled = true)
include hcancelled

/-- The coordinator is told of the cancellation while it waits. -/
theorem Waiting.watched (hs : Waiting (s.before .watch)) : Waiting (s.enqueue (.notice s.epoch)) where
  running := hs.running
  quiet h := by
    rw [s.turns_enqueue, List.mem_append] at h
    exact h.elim (fun h ↦ hs.quiet (List.mem_cons_of_mem _ h)) (by simp)
  noticed j f hf := by
    rw [s.turns_enqueue]
    exact List.mem_append_left _ (State.mem_of_before (t := .watch) (by simp) (hs.noticed j f hf))
  reason _ := .inl hcancelled
  cancelled _ := by
    rw [s.turns_enqueue]
    exact .inr (List.mem_append_right _ (List.mem_singleton_self _))
  fresh := hs.fresh.step ⟨_, s.turns_enqueue _⟩ fun _ hj ↦ ⟨hj, nofun⟩

theorem Woken.watched (hs : Woken (s.before .watch)) : Woken (s.enqueue (.notice s.epoch)) where
  due := by
    rw [s.turns_enqueue, ← hs.due]
    simp
  reason := .inl hcancelled
  fresh := hs.fresh.step ⟨_, s.turns_enqueue _⟩ fun _ hj ↦ ⟨hj, nofun⟩

end Watched

theorem Control.watch (hs : Control (s.before .watch)) : Control (watch s) := by
  have hepochs : ∀ e, .notice e ∈ s.turns → e ≤ s.epoch :=
    fun e he ↦ hs.epochs e (List.mem_cons_of_mem _ he)
  have hc := hs.controlled
  unfold Run.watch
  split
  · next hcancelled =>
    split
    · next woken hco =>
      refine ⟨hs.timers, fun e he ↦ ?_, .inr (.inl hcancelled), ?_⟩
      · rw [s.turns_enqueue, List.mem_append] at he
        exact he.elim (hepochs e) fun he ↦ (Turn.notice.inj (List.mem_singleton.1 he)).le
      rw [State.Controlled, State.coordinator_before, hco] at hc
      rw [State.Controlled, show (s.enqueue _).coordinator = _ from hco]
      cases woken with
      | false => exact hc.watched hcancelled
      | true => exact hc.watched hcancelled
    · next hco =>
      exact ⟨hs.timers, hepochs, .inr (.inl hcancelled),
        hc.taken nofun nofun nofun fun h _ ↦ absurd h (hco _)⟩
  · next hcancelled =>
    have hcontrolled : s.Controlled := hc.taken nofun nofun nofun fun _ h ↦ absurd h hcancelled
    have happended : Appended [] s { s with watching := true } :=
      ⟨by simp [State.turns], by simp, rfl, rfl, rfl, rfl⟩
    exact ⟨hs.timers, hepochs, .inl rfl, hcontrolled.append happended⟩

/-- The notice that the coordinator waits for wakes it. -/
theorem Waiting.woken (hs : Waiting (s.before (.notice s.epoch))) :
    Woken ({ s with coordinator := .waiting true }.enqueue .coordinate) where
  due := by
    have hquiet : s.turns.count .coordinate = 0 :=
      List.count_eq_zero.2 fun h ↦ hs.quiet (List.mem_cons_of_mem _ h)
    rw [State.turns_enqueue, List.count_append, List.count_singleton_self]
    exact congrArg (· + 1) hquiet
  reason := hs.reason List.mem_cons_self
  fresh := .of_not_fresh _ fun j ↦ hs.fresh.not_fresh j

theorem Draining.noticed {left : Nat} (cause : Option Abort)
    (hs : Draining (left + 1) (s.before (.notice s.epoch))) :
    Draining left (if left = 0 then { s with coordinator := .draining left cause }.enqueue .coordinate
      else { s with coordinator := .draining left cause }) := by
  have hdue : s.turns.count .coordinate = 0 := hs.due
  have hcount : (s.before (.notice s.epoch)).turns.count (.notice s.epoch) =
      s.turns.count (.notice s.epoch) + 1 := List.count_cons_self
  have hleft : left + 1 = s.activeCount + (s.before (.notice s.epoch)).turns.count (.notice s.epoch) :=
    hs.left_eq
  split
  · next hzero =>
    refine ⟨?_, ?_, hs.fresh⟩
    · rw [State.turns_enqueue, List.count_append, List.count_singleton_self, if_pos hzero]
      exact congrArg (· + 1) hdue
    · rw [State.turns_enqueue, List.count_append]
      change left = s.activeCount + (s.turns.count (.notice s.epoch) + 0)
      omega
  · next hzero =>
    refine ⟨?_, ?_, hs.fresh⟩
    · rw [if_neg hzero]
      exact hdue
    · change left = s.activeCount + s.turns.count (.notice s.epoch)
      omega

theorem State.Controlled.notice {e : Nat} (hs : (s.before (.notice e)).Controlled)
    (hdone : s.isDone = false) : (notice e s).Controlled := by
  unfold Run.notice
  split
  · next he => exact hs.taken nofun (fun h ↦ he (Turn.notice.inj h)) nofun nofun
  · next he =>
    obtain rfl : e = s.epoch := by simpa using he
    rw [State.Controlled, State.coordinator_before] at hs
    split at hs
    · next hco =>
      rw [hco]
      exact hs.woken
    · next hco =>
      rw [hco]
      rw [State.Controlled, hco]
      exact ⟨hs.due, hs.reason, hs.fresh.step ⟨[], by simp⟩ fun j hj ↦ ⟨hj, nofun⟩⟩
    · next left cause hco =>
      rw [hco]
      cases left with
      | zero =>
        -- the notice itself is still waited for
        have hleft := hs.left_eq
        rw [State.turns_before, show (s.before (.notice s.epoch)).epoch = s.epoch from rfl,
          List.count_cons_self] at hleft
        omega
      | succ left =>
        have hdrain := hs.noticed cause
        dsimp only
        split
        · next hzero => rwa [if_pos hzero] at hdrain
        · next hzero => rwa [if_neg hzero] at hdrain
    · next hco => simp [State.isDone, hco] at hdone

theorem Control.notice {e : Nat} (hs : Control (s.before (.notice e))) (hdone : s.isDone = false) :
    Control (notice e s) := by
  have h := notice_tells e s
  have hwatched : s.watching = true ∨ s.cancelled = true ∨ .watch ∈ s.turns :=
    hs.watched.imp_right (Or.imp_right (State.mem_of_before (by simp)))
  refine ⟨fun t ht ↦ hs.timers t (h.timers ▸ ht), fun e' he ↦ ?_, ?_, hs.controlled.notice hdone⟩
  · have hmem : .notice e' ∈ s.turns := by
      obtain hturns | hturns := h.turns
      · rwa [hturns] at he
      · simpa [hturns, Turn.sequel] using he
    rw [h.epoch]
    exact hs.epochs e' (List.mem_cons_of_mem _ hmem)
  · rw [h.watching.resolve_right nofun]
    exact hwatched.imp_right (Or.imp h.isCancelled h.mem_turns)

/-! ## The turn of the coordinator -/

/-- What the coordinator finds in its turn: nobody else is to tell it anything more. -/
structure Ready (s : State σ ι) : Prop where
  timers : ∀ t ∈ s.timers, t.turn.place? = none → t.turn = .cancel
  epochs : ∀ e, .notice e ∈ s.turns → e ≤ s.epoch
  watched : s.watching = true ∨ s.cancelled = true ∨ .watch ∈ s.turns
  quiet : .coordinate ∉ s.turns
  fresh : ∀ i, s.isFresh i = false

theorem Ready.control (hs : Ready s) (new : List Turn) (hturns : s'.turns = s.turns ++ new)
    (hnew : ∀ e, .notice e ∈ new → e ≤ s'.epoch) (htimers : s'.timers = s.timers)
    (hwatching : s'.watching = s.watching) (hcancelled : s'.cancelled = s.cancelled)
    (hepoch : s.epoch ≤ s'.epoch) (hc : s'.Controlled) : Control s' := by
  refine ⟨fun t ht ↦ hs.timers t (htimers ▸ ht), fun e he ↦ ?_, ?_, hc⟩
  · rw [hturns, List.mem_append] at he
    exact he.elim (fun he ↦ (hs.epochs e he).trans hepoch) (hnew e)
  · rw [hwatching, hcancelled, hturns]
    exact hs.watched.imp_right (Or.imp_right (List.mem_append_left new))

theorem Ready.notice_not_mem (hs : Ready s) : .notice (s.epoch + 1) ∉ s.turns := by
  intro h
  have := hs.epochs _ h
  omega

/-- The work that is interrupted and the notices of what has ended make up what is waited for. -/
theorem Ready.drain (hs : Ready s) (hrunning : ∃ i, (s.slot? i).any Slot.isRunning = true)
    (cause : Option Abort) : Control (drain cause s) := by
  have hslot (i : Nat) : (Run.drain cause s).slot? i = (s.slot? i).map Slot.interrupted := by
    rw [drain_eq, State.slot?, State.slot?, List.getElem?_map, Option.map_map, Option.map_map]
    rfl
  have hturns : (Run.drain cause s).turns = s.turns ++ ((s.placesWith Slot.isIdle).map .work ++
      List.replicate (s.placesWith fun slot ↦ slot.finish?.isSome).length (.notice (s.epoch + 1))) := by
    rw [drain_eq]
    simp only [State.turns, List.append_assoc]
  have hpos : 0 < (s.placesWith Slot.isRunning).length := by
    obtain ⟨i, hi⟩ := hrunning
    obtain ⟨slot, hslot, hrun⟩ := (Option.any_eq_true _ _).1 hi
    exact List.length_pos_of_mem (State.mem_placesWith.2 ⟨slot, hslot, hrun⟩)
  refine hs.control _ hturns (fun e he ↦ ?_) ?_ ?_ ?_ ?_ ?_
  · simp only [List.mem_append, List.mem_map, reduceCtorEq, and_false, exists_false, false_or,
      List.mem_replicate, Turn.notice.injEq] at he
    rw [he.2, drain_eq]
  · rw [drain_eq]
  · rw [drain_eq]
  · rw [drain_eq]
  · rw [drain_eq]
    exact Nat.le_succ _
  · have hco : (Run.drain cause s).coordinator =
        .draining (s.placesWith Slot.isRunning).length cause := by rw [drain_eq]
    rw [State.Controlled, hco]
    refine ⟨?_, ?_, fun i ↦ ?_⟩
    · rw [if_neg hpos.ne', hturns, List.count_eq_zero]
      simp [hs.quiet]
    · have hactive : (Run.drain cause s).activeCount = s.activeCount := by
        simp only [drain_eq, State.activeCount, List.countP_map]
        exact List.countP_congr fun p _ ↦ by simp [Place.interrupted, Slot.isActive_interrupted]
      have hepoch : (Run.drain cause s).epoch = s.epoch + 1 := by rw [drain_eq]
      have hwork : ((s.placesWith Slot.isIdle).map Turn.work).count (.notice (s.epoch + 1)) = 0 :=
        List.count_eq_zero.2 (by simp)
      rw [hactive, hepoch, hturns, List.count_append, List.count_append,
        List.count_eq_zero.2 hs.notice_not_mem, hwork, List.count_replicate_self,
        State.length_placesWith, State.length_placesWith, countP_isRunning, State.activeCount]
      omega
    · rw [State.isFresh, hslot]
      have hi := hs.fresh i
      rw [State.isFresh] at hi
      cases h : s.slot? i with
      | none => rfl
      | some slot =>
        rw [h] at hi
        exact slot.isFresh_interrupted.trans hi

theorem Ready.done {abort : Option Abort} (hs : Ready s) (hturns : s'.turns = s.turns)
    (htimers : s'.timers = s.timers) (hwatching : s'.watching = s.watching)
    (hcancelled : s'.cancelled = s.cancelled) (hepoch : s'.epoch = s.epoch)
    (hco : s'.coordinator = .done abort) (hactive : s'.activeCount = 0) : Control s' := by
  refine hs.control [] (by simp [hturns]) (by simp) htimers hwatching hcancelled hepoch.ge ?_
  rw [State.Controlled, hco]
  exact hactive

theorem Place.isActive_skip (reason : String) (p : Place ι) :
    (p.skip reason).slot.isActive = p.slot.isActive := by
  rcases p with ⟨_, _ | _ | _⟩ <;> rfl

theorem Place.isActive_drained (p : Place ι) : p.drained.slot.isActive = false := by
  rcases p with ⟨_, _ | ⟨_, _, _, _, _ | _ | _ | _ | _⟩ | _⟩ <;> rfl

theorem Ready.complete (quiet : setup.IsQuiet) (hs : Ready s) (hactive : s.activeCount = 0) :
    Control (complete setup s) := by
  obtain ⟨new, heq, -⟩ := complete_eq quiet s
  rw [heq]
  refine hs.done rfl rfl rfl rfl rfl rfl ?_
  rw [← hactive, State.activeCount, State.activeCount, List.countP_map]
  exact List.countP_congr fun p _ ↦ by simp [Place.isActive_skip]

theorem Ready.concludeDrain (quiet : setup.IsQuiet) (hs : Ready s) (cause : Option Abort)
    (hactive : s.activeCount = 0) : Control (concludeDrain setup cause s) := by
  cases cause with
  | none =>
    obtain ⟨new, heq, -⟩ := concludeDrain_eq_none quiet s
    rw [heq]
    refine hs.done rfl rfl rfl rfl rfl rfl ?_
    rw [State.activeCount, List.countP_map, List.countP_eq_zero]
    intro p _
    simp [Place.isActive_skip, Place.isActive_drained]
  | some abort =>
    obtain ⟨new, heq, -⟩ := concludeDrain_eq_some quiet abort s
    rw [heq]
    exact hs.done rfl rfl rfl rfl rfl rfl hactive

theorem runningCount_pos : 0 < s.runningCount ↔ ∃ i, (s.slot? i).any Slot.isRunning = true := by
  rw [State.runningCount, List.countP_pos_iff]
  constructor
  · rintro ⟨p, hp, hrun⟩
    obtain ⟨i, hi⟩ := List.mem_iff_getElem?.1 hp
    exact ⟨i, by simp [State.slot?, hi, hrun]⟩
  · rintro ⟨i, hi⟩
    obtain ⟨slot, hslot, hrun⟩ := (Option.any_eq_true _ _).1 hi
    obtain ⟨c, hc⟩ := State.slot?_eq_some.1 hslot
    exact ⟨_, List.mem_of_getElem? hc, hrun⟩

theorem isRunning_of_isFresh {j : Nat} (h : s.isFresh j = true) :
    (s.slot? j).any Slot.isRunning = true := by
  obtain ⟨slot, hslot, hf⟩ := (Option.any_eq_true _ _).1 h
  rw [hslot, Option.any_some, Slot.isRunning_eq, Slot.isActive_of_isFresh hf, Bool.true_or]

theorem activeCount_le_runningCount (s : State σ ι) : s.activeCount ≤ s.runningCount := by
  rw [State.activeCount, State.runningCount, countP_isRunning]
  exact Nat.le_add_right _ _

theorem activeCount_of_runningCount (h : s.runningCount = 0) : s.activeCount = 0 :=
  Nat.le_zero.1 (h ▸ activeCount_le_runningCount s)

/-- The free places are filled: what is launched is fresh, and its turns are the last ones. -/
structure Filled (new : List Turn) (s s' : State σ ι) : Prop where
  turns : s'.turns = s.turns ++ new
  work : ∀ t ∈ new, ∃ i, t = .work i
  fresh : ∀ i, s'.isFresh i = true → .work i ∈ new
  timers : s'.timers = s.timers
  watching : s'.watching = s.watching
  cancelled : s'.cancelled = s.cancelled
  epoch : s'.epoch = s.epoch

theorem Filled.mem_turns {new : List Turn} {turn : Turn} (h : Filled new s s')
    (hwork : ∀ i, turn ≠ .work i) (hturn : turn ∈ s'.turns) : turn ∈ s.turns := by
  rw [h.turns, List.mem_append] at hturn
  refine hturn.resolve_right fun hmem ↦ ?_
  obtain ⟨i, hi⟩ := h.work turn hmem
  exact hwork i hi

theorem Ready.filled (hs : Ready s) (setup : Setup σ ι) : ∃ new, Filled new s (s.filled setup) := by
  rw [State.filled]
  split
  · exact ⟨[], by simp, by simp, fun i hi ↦ by simp [hs.fresh i] at hi, rfl, rfl, rfl, rfl⟩
  · refine ⟨_, launch_turns _ s, by simp, fun i hi ↦ ?_, ?_, ?_, ?_, ?_⟩
    · rw [State.isFresh, launch_slot?] at hi
      split at hi
      · next hmem => exact List.mem_map_of_mem hmem
      · have hfresh := hs.fresh i
        rw [State.isFresh, hi] at hfresh
        cases hfresh
    all_goals rw [launch_eq]

theorem filled_finish? (setup : Setup σ ι) (hfinish : ∀ i, s.finish? i = none) (i : Nat) :
    (s.filled setup).finish? i = none := by
  rw [State.filled]
  split
  · exact hfinish i
  · rw [State.finish?, launch_slot?]
    split
    · rfl
    · exact hfinish i

theorem filled_of_cancelled (setup : Setup σ ι) (h : s.cancelled = true) : s.filled setup = s := by
  rw [State.filled, if_pos (by simp [h])]

/-- Where nothing is running nothing was launched. -/
theorem Ready.of_filled {new : List Turn} (hs : Ready s) (h : Filled new s s')
    (hzero : s'.runningCount = 0) : Ready s' where
  timers := by
    rw [h.timers]
    exact hs.timers
  epochs e he := by
    rw [h.epoch]
    exact hs.epochs e (h.mem_turns nofun he)
  watched := by
    rw [h.watching, h.cancelled, h.turns]
    exact hs.watched.imp_right (Or.imp_right (List.mem_append_left new))
  quiet hc := hs.quiet (h.mem_turns nofun hc)
  fresh i := by
    by_contra hi
    have hrunning := runningCount_pos.2 ⟨i, isRunning_of_isFresh (by simpa using hi)⟩
    omega

/-- The coordinator waits for a notice of its own that nobody has sent yet. -/
theorem Ready.waiting {new : List Turn} (hs : Ready s) (h : Filled new s s')
    (hfinish : ∀ i, s'.finish? i = none) (hcancelled : s'.cancelled = false)
    (hpos : 0 < s'.runningCount) :
    Waiting { s' with epoch := s'.epoch + 1, coordinator := .waiting false } := by
  have hnotice : .notice (s'.epoch + 1) ∉ s'.turns := by
    rw [h.epoch]
    exact fun hn ↦ hs.notice_not_mem (h.mem_turns nofun hn)
  refine ⟨runningCount_pos.1 hpos, fun hc ↦ hs.quiet (h.mem_turns nofun hc), fun i f hf ↦ ?_,
    fun hn ↦ absurd hn hnotice, fun hc ↦ ?_, .of_not_mem (fun i hi ↦ ?_) hnotice⟩
  · cases (hfinish i).symm.trans hf
  · cases hcancelled.symm.trans hc
  · change _ ∈ s'.turns
    rw [h.turns]
    exact List.mem_append_right _ (h.fresh i hi)

theorem Ready.fill (quiet : setup.IsQuiet) (hs : Ready s) (hfinish : ∀ i, s.finish? i = none)
    (hcancelled : s.cancelled = true → s.runningCount = 0) : Control (fill setup s) := by
  obtain ⟨new, hfilled⟩ := hs.filled setup
  rw [fill_eq]
  split
  · next hzero =>
    exact (hs.of_filled hfilled hzero).complete quiet (activeCount_of_runningCount hzero)
  · next hpos =>
    have hnever : (s.filled setup).cancelled = false := by
      by_contra h
      have h : s.cancelled = true := by simpa [hfilled.cancelled] using h
      rw [filled_of_cancelled setup h] at hpos
      exact hpos (hcancelled h)
    refine hs.control new hfilled.turns (fun e he ↦ ?_) hfilled.timers hfilled.watching
      hfilled.cancelled (hfilled.epoch.ge.trans (Nat.le_succ _)) ?_
    · cases (hfilled.work _ he).choose_spec
    · exact hs.waiting hfilled (filled_finish? setup hfinish) hnever (Nat.pos_of_ne_zero hpos)

theorem Ready.collected (hs : Ready s) (setup : Setup σ ι) : Ready (s.collected setup) := by
  obtain ⟨k, hk, -⟩ := s.collected_slot? setup
  have hfresh (i : Nat) : (s.collected setup).isFresh i = false := by
    have hi := hs.fresh i
    rw [State.isFresh] at hi ⊢
    rw [hk]
    split
    · rw [State.slot?] at hi
      cases hp : s.places[i]? with
      | none => rfl
      | some p =>
        rw [hp] at hi
        exact p.slot.isFresh_settle.trans hi
    · exact hi
  obtain ⟨new, hnew, -⟩ := s.collected_eq setup
  rw [hnew] at hfresh ⊢
  exact ⟨hs.timers, hs.epochs, hs.watched, hs.quiet, hfresh⟩

theorem Ready.note (hs : Ready s) (n : Note) : Ready (s.note n) :=
  ⟨hs.timers, hs.epochs, hs.watched, hs.quiet, hs.fresh⟩

theorem collected_finish? (h : s.abort? setup = none) (i : Nat) :
    (s.collected setup).finish? i = none := by
  obtain ⟨k, hk, hlen⟩ := s.collected_slot? setup
  obtain rfl := hlen h
  rw [State.finish?, hk]
  split
  · cases hp : s.places[i]? with
    | none => rfl
    | some p =>
      simp only [Option.map_some, Option.bind_some]
      cases hf : p.slot.finish? with
      | none => rwa [Place.settled_of_none hf]
      | some f =>
        obtain ⟨o, rfl⟩ := (State.settle_abort _ _ _).1 h p (List.mem_of_getElem? hp) f hf
        rw [Place.settled_of_some hf]
        rfl
  · next hi => simp [State.slot?, List.getElem?_eq_none (Nat.le_of_not_lt hi)]

theorem Ready.collect (quiet : setup.IsQuiet) (hs : Ready s) : Control (collect setup s) := by
  have hcollected := hs.collected setup
  have hcancelled : (s.collected setup).cancelled = s.cancelled := by
    rw [State.collected, State.noteAll_eq]
  rw [collect_eq]
  split
  · next habort =>
    refine hcollected.drain ?_ _
    obtain ⟨p, hp, hrun⟩ := State.settle_running setup.policy.failFast s.halted s.places
      (by rw [← State.abort?, habort]; simp)
    obtain ⟨new, hnew, -⟩ := s.collected_eq setup
    rw [← runningCount_pos, State.runningCount, List.countP_pos_iff, hnew]
    exact ⟨p, hp, hrun⟩
  · next habort =>
    split
    · split
      · next hzero =>
        have hactive := activeCount_le_runningCount (s.collected setup)
        exact (hcollected.note _).concludeDrain quiet none (Nat.le_zero.1 (hzero ▸ hactive))
      · next hpos => exact (hcollected.note _).drain (runningCount_pos.1 (Nat.pos_of_ne_zero hpos)) _
    · next hnot =>
      exact hcollected.fill quiet (collected_finish? habort) fun h ↦ absurd (hcancelled ▸ h) hnot

/-- The coordinator finds in its turn what it needs. -/
theorem Control.ready (hs : Control (s.before .coordinate)) (hdone : s.isDone = false) : Ready s := by
  have hmem {turn : Turn} (h : turn ∈ s.turns) : turn ∈ (s.before .coordinate).turns :=
    List.mem_cons_of_mem _ h
  have hc := hs.controlled
  rw [State.Controlled, State.coordinator_before] at hc
  have hready (hdue : (s.before .coordinate).turns.count .coordinate ≤ 1)
      (hfresh : ∀ i, s.isFresh i = false) : Ready s := by
    refine ⟨hs.timers, fun e he ↦ hs.epochs e (hmem he),
      hs.watched.imp_right (Or.imp_right (State.mem_of_before (by simp))), ?_, hfresh⟩
    rw [State.turns_before, List.count_cons_self] at hdue
    exact List.count_eq_zero.1 (by omega)
  split at hc
  · exact absurd List.mem_cons_self hc.quiet
  · exact hready hc.due.le hc.fresh.not_fresh
  · refine hready ?_ hc.fresh
    rw [hc.due]
    split <;> omega
  · next hco => simp [State.isDone, hco] at hdone

theorem Control.coordinate (quiet : setup.IsQuiet) (hs : Control (s.before .coordinate))
    (hdone : s.isDone = false) : Control (coordinate setup s) := by
  have hready := hs.ready hdone
  have hc := hs.controlled
  rw [State.Controlled, State.coordinator_before] at hc
  unfold Run.coordinate
  split
  · exact hready.collect quiet
  · next left cause hco =>
    rw [hco] at hc
    -- the coordinator has a turn only when nothing is left to be noticed
    have hzero : left = 0 := by
      have hdue := hc.due
      by_contra h
      rw [if_neg h, State.turns_before, List.count_cons_self] at hdue
      omega
    have hleft := hc.left_eq
    refine hready.concludeDrain quiet cause ?_
    change left = s.activeCount + _ at hleft
    omega
  · next hco => simp [State.isDone, hco] at hdone

/-! ## Runs -/

theorem Control.handle (quiet : setup.IsQuiet) (hs : Control (s.before t)) (hdone : s.isDone = false) :
    Control (handle setup t s) := by
  cases t with
  | work i =>
    exact hs.turned (.inl (Turn.place?_work i)) (work_turned quiet i s)
      (fun _ ↦ work_not_fresh quiet i s) hdone
  | expire i n => exact hs.turned (.inl (Turn.place?_expire i n)) (.moves (expire_moves i n s)) nofun hdone
  | ring i n a => exact hs.turned (.inl (Turn.place?_ring i n a)) (.moves (ring_moves i n a s)) nofun hdone
  | cancel => exact (hs.turned (i := 0) (.inr rfl) (.moves (.refl 0 s)) nofun hdone).cancel
  | watch => exact hs.watch
  | notice e => exact hs.notice hdone
  | coordinate => exact hs.coordinate quiet hdone

theorem Control.step (quiet : setup.IsQuiet) (hs : Control s) (hdone : s.isDone = false) :
    Control (step setup s) := by
  unfold Run.step
  split
  · next t queue hqueue =>
    rw [State.eq_before hqueue] at hs
    exact hs.handle quiet hdone
  · next hqueue => exact hs.advance hqueue

theorem Control.begin (quiet : setup.IsQuiet) (cancellation : Cancellation) (now : Float) (shared : σ)
    (components : List String) : Control (begin setup cancellation now shared components) := by
  unfold Run.begin
  refine Ready.fill quiet ⟨?_, ?_, ?_, ?_, fun i ↦ ?_⟩ (fun i ↦ ?_) fun h ↦ ?_
  · simp only [State.note, List.mem_map]
    rintro t ⟨delay, -, rfl⟩ -
    rfl
  · simp [State.turns, State.note]
  · simp [State.turns, State.note]
  · simp [State.turns, State.note]
  · simp only [State.isFresh, State.slot?, State.note, List.getElem?_map]
    cases components[i]? <;> rfl
  · simp only [State.finish?, State.slot?, State.note, List.getElem?_map]
    cases components[i]? <;> rfl
  · simp only [State.runningCount, State.note, List.countP_map, List.countP_eq_zero]
    simp [Slot.isRunning]

/-- Whenever a run has come, its coordinator can count on a turn. -/
theorem Control.steps (quiet : setup.IsQuiet) (hs : Control s) (fuel : Nat) :
    Control (steps setup fuel s) :=
  steps_induction (fun _ hdone hs ↦ hs.step quiet hdone) hs fuel

end Testbed.Run

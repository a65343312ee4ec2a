import Mathlib
import Testbed.Run.Execution

/-!
# Turns and places

Which place a turn is about, which turns are pending, and which places have work underway.  The
operations on a state are record updates; the lemmas here describe those that are folds or that hide
a case, so that the proofs about turns can take the operations apart by `simp`.
-/

namespace Testbed.Run

variable {σ ι : Type}

/-- The place that a turn is about, unless it is about the run as a whole. -/
def Turn.place? : Turn → Option Nat
  | .work place | .expire place _ | .ring place _ _ => some place
  | .cancel | .watch | .notice _ | .coordinate => none

@[simp] theorem Turn.place?_work (i : Nat) : (Turn.work i).place? = some i := rfl
@[simp] theorem Turn.place?_expire (i n : Nat) : (Turn.expire i n).place? = some i := rfl
@[simp] theorem Turn.place?_ring (i n a : Nat) : (Turn.ring i n a).place? = some i := rfl
@[simp] theorem Turn.place?_cancel : Turn.cancel.place? = none := rfl
@[simp] theorem Turn.place?_watch : Turn.watch.place? = none := rfl
@[simp] theorem Turn.place?_notice (e : Nat) : (Turn.notice e).place? = none := rfl
@[simp] theorem Turn.place?_coordinate : Turn.coordinate.place? = none := rfl

/-- A turn is about a place, or the turn of the coordinator, or tells the coordinator something. -/
theorem Turn.kinds (t : Turn) :
    (∃ i, t.place? = some i) ∨ t = .coordinate ∨ t.place? = none ∧ t ≠ .coordinate := by
  cases t <;> simp

/-- The pending turns, in the order in which they are taken. -/
def State.turns (s : State σ ι) : List Turn :=
  s.queue ++ s.next

namespace Slot

/-- The first attempt is still to be made. -/
def isFresh : Slot ι → Bool
  | .running { stage := .fresh, .. } => true
  | _ => false

/-- Work is underway: it was started and has not ended. -/
def isActive : Slot ι → Bool
  | .running { stage := .finished _, .. } => false
  | .running _ => true
  | _ => false

@[simp] theorem isActive_pending : (Slot.pending : Slot ι).isActive = false := rfl

@[simp] theorem isActive_settled (o : Outcome) : (Slot.settled o : Slot ι).isActive = false := rfl

@[simp] theorem isActive_finished (w : Worker ι) (f : Finish) :
    (Slot.running ({ w with stage := .finished f } : Worker ι)).isActive = false := rfl

theorem isRunning_eq (slot : Slot ι) : slot.isRunning = (slot.isActive || slot.finish?.isSome) := by
  rcases slot with _ | ⟨_, _, _, _, _ | _ | _⟩ | _ <;> rfl

theorem finish?_of_isActive {slot : Slot ι} (h : slot.isActive = true) : slot.finish? = none := by
  rcases slot with _ | ⟨_, _, _, _, _ | _ | _⟩ | _ <;> simp_all [isActive, finish?]

theorem isFresh_iff {slot : Slot ι} :
    slot.isFresh = true ↔ ∃ w, slot = .running w ∧ w.stage = .fresh := by
  rcases slot with _ | ⟨_, _, _, _, _ | _ | _⟩ | _ <;> simp [isFresh]

theorem isFresh_running {w : Worker ι} : (Slot.running w).isFresh = true ↔ w.stage = .fresh := by
  simp [isFresh_iff]

theorem isActive_of_isFresh {slot : Slot ι} (h : slot.isFresh = true) : slot.isActive = true := by
  rcases slot with _ | ⟨_, _, _, _, _ | _ | _⟩ | _ <;> simp_all [isFresh, isActive]

theorem isActive_iff {slot : Slot ι} :
    slot.isActive = true ↔ ∃ w, slot = .running w ∧ ∀ f, w.stage ≠ .finished f := by
  rcases slot with _ | ⟨_, _, _, _, _ | _ | _⟩ | _ <;> simp [isActive]

theorem finish?_eq_some {slot : Slot ι} {f : Finish} :
    slot.finish? = some f ↔ ∃ w, slot = .running w ∧ w.stage = .finished f := by
  rcases slot with _ | ⟨_, _, _, _, _ | _ | _⟩ | _ <;> simp [finish?]

end Slot

namespace State

def isFresh (s : State σ ι) (i : Nat) : Bool :=
  (s.slot? i).any Slot.isFresh

def isActive (s : State σ ι) (i : Nat) : Bool :=
  (s.slot? i).any Slot.isActive

/-- How the work at a place ended, if it has ended and is not settled. -/
def finish? (s : State σ ι) (i : Nat) : Option Finish :=
  (s.slot? i).bind Slot.finish?

/-- The number of places with work underway. -/
def activeCount (s : State σ ι) : Nat :=
  s.places.countP (·.slot.isActive)

@[simp]
theorem turns_enqueue (s : State σ ι) (t : Turn) : (s.enqueue t).turns = s.turns ++ [t] := by
  simp [turns, enqueue]

theorem noteAll_eq (s : State σ ι) (notes : List Note) :
    s.noteAll notes = { s with journal := (notes.map fun n ↦ ⟨s.now, n⟩).reverse ++ s.journal } := by
  induction notes generalizing s with
  | nil => rfl
  | cons n notes ih =>
    have h : s.noteAll (n :: notes) = (s.note n).noteAll notes := rfl
    rw [h, ih]
    simp [note]

theorem slot?_setSlot (s : State σ ι) (i j : Nat) (slot : Slot ι) :
    (s.setSlot i slot).slot? j = if i = j then (s.slot? j).map fun _ ↦ slot else s.slot? j := by
  by_cases h : i = j
  · subst h
    cases hp : s.places[i]? <;> simp [setSlot, slot?, hp]
  · simp [setSlot, slot?, h]

theorem setWorker_not_fresh (s : State σ ι) (i : Nat) {w : Worker ι} (hw : w.stage ≠ .fresh) :
    (s.setWorker i w).isFresh i = false := by
  have hrunning : (Slot.running w).isFresh = false :=
    Bool.eq_false_iff.2 (mt Slot.isFresh_running.1 hw)
  rw [isFresh, setWorker, slot?_setSlot, if_pos rfl]
  cases s.slot? i <;> simp [hrunning]

theorem worker?_eq_some {s : State σ ι} {i : Nat} {w : Worker ι} :
    s.worker? i = some w ↔ s.slot? i = some (.running w) := by
  unfold worker?
  split <;> simp_all

theorem slot?_eq_some {s : State σ ι} {i : Nat} {slot : Slot ι} :
    s.slot? i = some slot ↔ ∃ component, s.places[i]? = some { component, slot } := by
  simp only [slot?, Option.map_eq_some_iff]
  constructor
  · rintro ⟨⟨c, _⟩, h, rfl⟩
    exact ⟨c, h⟩
  · rintro ⟨c, h⟩
    exact ⟨_, h, rfl⟩

theorem place_of_slot? {s : State σ ι} {i : Nat} {c : String} {slot : Slot ι}
    (hcomponent : s.places[i]?.map (·.component) = some c) (hslot : s.slot? i = some slot) :
    s.places[i]? = some { component := c, slot := slot } := by
  obtain ⟨d, hd⟩ := slot?_eq_some.1 hslot
  rw [hd] at hcomponent
  obtain rfl : d = c := by simpa using hcomponent
  exact hd

theorem mem_placesWith {s : State σ ι} {p : Slot ι → Bool} {i : Nat} :
    i ∈ s.placesWith p ↔ ∃ slot, s.slot? i = some slot ∧ p slot = true := by
  simp only [placesWith, List.mem_filter, List.mem_range, Option.any_eq_true]
  constructor
  · rintro ⟨-, h⟩
    exact h
  · rintro ⟨slot, h, hp⟩
    obtain ⟨c, hc⟩ := slot?_eq_some.1 h
    exact ⟨(List.getElem?_eq_some_iff.1 hc).1, slot, h, hp⟩

end State

/-! ## Listeners that only listen -/

/-- The listener neither cancels the run nor fails. -/
def Setup.IsQuiet (setup : Setup σ ι) : Prop :=
  ∀ e, setup.listener e = {}

theorem Setup.IsQuiet.emit {setup : Setup σ ι} (quiet : setup.IsQuiet) (s : State σ ι) (e : Event) :
    setup.emit s e = ((s.note (.debug .run ("Progress: " ++ e.detail))).note (.progress e), none) := by
  simp only [Setup.emit, quiet e]

theorem isQuiet_default (runner : Runner σ ι) (policy : Policy) :
    ({ runner, policy } : Setup σ ι).IsQuiet :=
  fun _ ↦ rfl

/-! ## Turns about the run -/

/-- The turn that a turn about the run may lead to: a cancellation is looked for, what is found is
noticed, and the notice gives the coordinator a turn. -/
def Turn.sequel (epoch : Nat) : Turn → Turn
  | .cancel => .watch
  | .watch => .notice epoch
  | _ => .coordinate

@[simp]
theorem Turn.place?_sequel (epoch : Nat) (t : Turn) : (t.sequel epoch).place? = none := by
  cases t <;> rfl

theorem Turn.sequel_ne_cancel (epoch : Nat) (t : Turn) : t.sequel epoch ≠ .cancel := by
  cases t <;> exact nofun

/-- What a turn can do that neither is about a place nor that of the coordinator.  It only tells the
coordinator something. -/
structure Tells (t : Turn) (s s' : State σ ι) : Prop where
  now : s'.now = s.now
  timers : s'.timers = s.timers
  queue : s'.queue = s.queue
  next : s'.next = s.next ∨ s'.next = s.next ++ [t.sequel s.epoch]
  shared : s'.shared = s.shared
  places : s'.places = s.places
  halted : s'.halted = s.halted
  cancelled : s'.cancelled = s.cancelled ∨ t = .cancel ∧ s'.cancelled = true
  watching : s'.watching = s.watching ∨ t = .watch ∧ s'.watching = true
  coordinator : s'.coordinator = s.coordinator ∨
    s.coordinator = .waiting false ∧ s'.coordinator = .waiting true ∨
      ∃ left cause, s.coordinator = .draining (left + 1) cause ∧
        s'.coordinator = .draining left cause
  epoch : s'.epoch = s.epoch
  journal : s'.journal = s.journal

namespace Tells

variable {s s' : State σ ι} {t : Turn}

theorem refl (t : Turn) (s : State σ ι) : Tells t s s :=
  ⟨rfl, rfl, rfl, .inl rfl, rfl, rfl, rfl, .inl rfl, .inl rfl, .inl rfl, rfl, rfl⟩

theorem turns (h : Tells t s s') :
    s'.turns = s.turns ∨ s'.turns = s.turns ++ [t.sequel s.epoch] := by
  rw [State.turns, State.turns, h.queue]
  exact h.next.imp (congrArg _) fun hnext ↦ by rw [hnext, List.append_assoc]

theorem mem_turns (h : Tells t s s') {turn : Turn} (hturn : turn ∈ s.turns) : turn ∈ s'.turns := by
  obtain hturns | hturns := h.turns
  · rwa [hturns]
  · rw [hturns]
    exact List.mem_append_left _ hturn

theorem slot? (h : Tells t s s') (i : Nat) : s'.slot? i = s.slot? i := by
  rw [State.slot?, h.places, State.slot?]

theorem isCancelled (h : Tells t s s') (hcancelled : s.cancelled = true) : s'.cancelled = true := by
  obtain heq | ⟨-, hcancel⟩ := h.cancelled
  · exact heq.trans hcancelled
  · exact hcancel

end Tells

theorem cancel_tells (s : State σ ι) : Tells .cancel s s.cancel := by
  unfold State.cancel
  split
  · exact .refl _ s
  · dsimp only
    split
    · exact ⟨rfl, rfl, rfl, .inr rfl, rfl, rfl, rfl, .inr ⟨rfl, rfl⟩, .inl rfl, .inl rfl, rfl, rfl⟩
    · exact ⟨rfl, rfl, rfl, .inl rfl, rfl, rfl, rfl, .inr ⟨rfl, rfl⟩, .inl rfl, .inl rfl, rfl, rfl⟩

theorem watch_tells (s : State σ ι) : Tells .watch s (watch s) := by
  unfold watch
  split
  · split
    · exact ⟨rfl, rfl, rfl, .inr rfl, rfl, rfl, rfl, .inl rfl, .inl rfl, .inl rfl, rfl, rfl⟩
    · exact .refl _ s
  · exact ⟨rfl, rfl, rfl, .inl rfl, rfl, rfl, rfl, .inl rfl, .inr ⟨rfl, rfl⟩, .inl rfl, rfl, rfl⟩

theorem notice_tells (e : Nat) (s : State σ ι) : Tells (.notice e) s (notice e s) := by
  unfold notice
  split
  · exact .refl _ s
  · split
    · next hco =>
      exact ⟨rfl, rfl, rfl, .inr rfl, rfl, rfl, rfl, .inl rfl, .inl rfl, .inr (.inl ⟨hco, rfl⟩), rfl, rfl⟩
    · next left cause hco =>
      dsimp only
      split
      · exact ⟨rfl, rfl, rfl, .inr rfl, rfl, rfl, rfl, .inl rfl, .inl rfl,
          .inr (.inr ⟨left, cause, hco, rfl⟩), rfl, rfl⟩
      · exact ⟨rfl, rfl, rfl, .inl rfl, rfl, rfl, rfl, .inl rfl, .inl rfl,
          .inr (.inr ⟨left, cause, hco, rfl⟩), rfl, rfl⟩
    · exact .refl _ s

theorem handle_tells (setup : Setup σ ι) {t : Turn} (ht : t.place? = none) (hne : t ≠ .coordinate)
    (s : State σ ι) : Tells t s (handle setup t s) := by
  cases t with
  | work | expire | ring => cases ht
  | cancel => exact cancel_tells s
  | watch => exact watch_tells s
  | notice e => exact notice_tells e s
  | coordinate => exact absurd rfl hne

/-! ## Steps of a run -/

/-- What every step of a run that is not over keeps is kept by the run. -/
theorem steps_induction {setup : Setup σ ι} {P : State σ ι → Prop}
    (hstep : ∀ s, s.isDone = false → P s → P (step setup s)) {s : State σ ι} (hs : P s) (n : Nat) :
    P (steps setup n s) := by
  induction n generalizing s with
  | zero => exact hs
  | succ n ih =>
    rw [steps]
    split
    · exact hs
    · next hdone => exact ih (hstep s (by simpa using hdone) hs)

/-! ## Counting over the places -/

theorem sum_map_modify {α : Type} {l : List α} {i : Nat} {a : α} (h : l[i]? = some a) (f : α → α)
    (g : α → Nat) : ((l.modify i f).map g).sum + g a = (l.map g).sum + g (f a) := by
  induction l generalizing i with
  | nil => simp at h
  | cons b l ih =>
    cases i with
    | zero =>
      obtain rfl : b = a := by simpa using h
      simp only [List.modify_zero_cons, List.map_cons, List.sum_cons]
      omega
    | succ i =>
      have h := ih (by simpa using h)
      simp only [List.modify_succ_cons, List.map_cons, List.sum_cons]
      omega

theorem countP_modify {α : Type} {l : List α} {i : Nat} {a : α} (h : l[i]? = some a) (f : α → α)
    (p : α → Bool) :
    (l.modify i f).countP p + (p a).toNat = l.countP p + (p (f a)).toNat := by
  have hsum := sum_map_modify h f fun b ↦ (p b).toNat
  have hcount (l : List α) : l.countP p = (l.map fun b ↦ (p b).toNat).sum := by
    induction l with
    | nil => rfl
    | cons b l ih => cases hb : p b <;> simp [hb, ih, Nat.add_comm]
  rw [hcount, hcount, hsum]

end Testbed.Run

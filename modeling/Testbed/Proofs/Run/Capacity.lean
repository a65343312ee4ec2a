import Testbed.Proofs.Run.Halt
import Testbed.Proofs.Run.Steps

/-!
# Capacity

A run works on as many components at once as its policy allows: never on more, and on fewer only when
there is nothing left to start, or when nothing is to be started any more.  The runner counts as many
invocations as there are.
-/

namespace Testbed.Run

/-! ## Counting places -/

section Counts

variable {σ ι : Type} {setup : Setup σ ι} {i : Nat} {s s' : State σ ι} {q : Slot ι → Bool}

/-- The number of invocations underway. -/
def State.invocationCount (s : State σ ι) : Nat :=
  s.places.countP (·.slot.isInvoked)

theorem State.slot?_of_place {p : Place ι} (hp : s.places[i]? = some p) : s.slot? i = some p.slot :=
  congrArg (Option.map _) hp

/-- A turn about a place counts for that place alone. -/
theorem Turned.countP (h : Turned i s s') (q : Slot ι → Bool) :
    s'.places.countP (q ·.slot) + ((s.slot? i).any q).toNat =
      s.places.countP (q ·.slot) + ((s'.slot? i).any q).toNat := by
  obtain ⟨f, hf⟩ := h.places
  cases hp : s.places[i]? with
  | none =>
    have hsame : s'.places = s.places := by rw [hf, List.modify_eq_self (by simpa using hp)]
    simp only [State.slot?, hsame]
  | some p =>
    have hslot : s'.slot? i = some (f p.slot) := by
      simp [State.slot?, hf, List.getElem?_modify_eq, hp]
    rw [State.slot?_of_place hp, hslot, hf]
    exact countP_modify hp _ (q ·.slot)

theorem Turned.runningCount (h : Turned i s s') : s'.runningCount = s.runningCount := by
  have hcount := h.countP Slot.isRunning
  rw [h.isRunning i] at hcount
  exact Nat.add_right_cancel hcount

theorem countP_map_le {f : Place ι → Place ι} (hf : ∀ p, q (f p).slot = true → q p.slot = true)
    (places : List (Place ι)) : (places.map f).countP (q ·.slot) ≤ places.countP (q ·.slot) := by
  rw [List.countP_map]
  exact List.countP_mono_left fun p _ ↦ hf p

theorem countP_map_eq {f : Place ι → Place ι} (hf : ∀ p, q (f p).slot = q p.slot)
    (places : List (Place ι)) : (places.map f).countP (q ·.slot) = places.countP (q ·.slot) := by
  rw [List.countP_map]
  exact List.countP_congr fun p _ ↦ by rw [Function.comp_apply, hf]

theorem invocationCount_le_activeCount (s : State σ ι) : s.invocationCount ≤ s.activeCount :=
  List.countP_mono_left fun p _ h ↦ by rw [Slot.isActive_eq, h, Bool.or_true]

theorem invocationCount_le_runningCount (s : State σ ι) : s.invocationCount ≤ s.runningCount :=
  (invocationCount_le_activeCount s).trans (activeCount_le_runningCount s)

theorem collected_places (habort : s.abort? setup = none) :
    (s.collected setup).places = s.places.map Place.settled := by
  obtain ⟨k, -, hk, hlength⟩ := State.settle_places setup.policy.failFast s.halted s.places
  obtain ⟨new, hnew, -⟩ := s.collected_eq setup
  obtain rfl := hlength habort
  rw [hnew]
  simp [hk]

theorem collected_runningCount (habort : s.abort? setup = none) :
    (s.collected setup).runningCount ≤ s.runningCount := by
  rw [State.runningCount, collected_places habort]
  refine countP_map_le (fun p ↦ ?_) s.places
  rcases p with ⟨_, _ | ⟨_, _, _, _, _ | _ | _ | _ | _⟩ | _⟩ <;> first | exact id | exact fun _ ↦ rfl

theorem collected_invocationCount (habort : s.abort? setup = none) :
    (s.collected setup).invocationCount = s.invocationCount := by
  rw [State.invocationCount, collected_places habort]
  exact countP_map_eq (fun p ↦ p.slot.isInvoked_settle) s.places

theorem drain_runningCount (cause : Option Abort) (s : State σ ι) :
    (drain cause s).runningCount = s.runningCount := by
  rw [State.runningCount, drain_eq]
  refine countP_map_eq (fun p ↦ ?_) s.places
  rcases p with ⟨_, _ | ⟨_, _, _, _, _ | _ | _⟩ | _⟩ <;> rfl

theorem drain_invocationCount (cause : Option Abort) (s : State σ ι) :
    (drain cause s).invocationCount = s.invocationCount := by
  rw [State.invocationCount, drain_eq]
  exact countP_map_eq (fun p ↦ p.slot.isInvoked_interrupted) s.places

theorem complete_counts (quiet : setup.IsQuiet) (s : State σ ι) :
    (complete setup s).runningCount = s.runningCount ∧
      (complete setup s).invocationCount = s.invocationCount := by
  obtain ⟨new, heq, -⟩ := complete_eq quiet s
  rw [heq]
  constructor <;> refine countP_map_eq (fun p ↦ ?_) s.places <;>
    rcases p with ⟨_, _ | _ | _⟩ <;> rfl

/-- When a run ends, nothing is underway any more. -/
theorem concludeDrain_counts (quiet : setup.IsQuiet) (s : State σ ι) :
    (concludeDrain setup none s).runningCount = 0 ∧
      (concludeDrain setup none s).invocationCount = 0 := by
  obtain ⟨new, heq, -⟩ := concludeDrain_eq_none quiet s
  rw [heq]
  constructor <;> refine List.countP_eq_zero.2 fun p hp ↦ ?_ <;>
    obtain ⟨p, -, rfl⟩ := List.mem_map.1 hp <;>
    rcases p with ⟨_, _ | ⟨_, _, _, _, _ | _ | _ | _ | _⟩ | _⟩ <;> exact Bool.false_ne_true

/-- Changing several places in the same way counts for each of them. -/
theorem countP_foldl_modify {α : Type} {f : α → α} {q : α → Bool} {b b' : Bool} {places : List Nat}
    (nodup : places.Nodup) {l : List α}
    (h : ∀ i ∈ places, ∃ a, l[i]? = some a ∧ q a = b ∧ q (f a) = b') :
    (places.foldl (fun l i ↦ l.modify i f) l).countP q + places.length * b.toNat =
      l.countP q + places.length * b'.toNat := by
  induction places generalizing l with
  | nil => simp
  | cons i places ih =>
    obtain ⟨hi, nodup⟩ := List.nodup_cons.1 nodup
    obtain ⟨a, ha, hb, hb'⟩ := h i List.mem_cons_self
    have hmodify := countP_modify ha f q
    have hrest := ih nodup (l := l.modify i f) fun j hj ↦ by
      obtain ⟨a', ha', h'⟩ := h j (List.mem_cons_of_mem i hj)
      have hij : i ≠ j := fun h ↦ hi (h ▸ hj)
      exact ⟨a', by simp [hij, ha'], h'⟩
    rw [hb, hb'] at hmodify
    rw [List.foldl_cons, List.length_cons, Nat.add_mul, Nat.add_mul]
    omega

/-- Starting components counts for as many places as are started. -/
theorem launch_countP (free : Nat) (s : State σ ι) (q : Slot ι → Bool) :
    (launch free s).places.countP (q ·.slot) + (s.launchable free).length * (q .pending).toNat =
      s.places.countP (q ·.slot) +
        (s.launchable free).length * (q (.running { started := s.now })).toNat := by
  rw [launch_eq]
  refine countP_foldl_modify ((s.placesWith_nodup _).sublist (List.take_sublist _ _)) fun i hi ↦ ?_
  obtain ⟨slot, hslot, hpending⟩ := State.mem_placesWith.1 (List.mem_of_mem_take hi)
  obtain ⟨c, hc⟩ := State.slot?_eq_some.1 hslot
  cases slot with
  | pending => exact ⟨_, hc, rfl, rfl⟩
  | running | settled => cases hpending

/-- The free places are filled unless nothing is left to be started. -/
theorem launch_runningCount (free : Nat) (s : State σ ι) :
    (launch free s).runningCount ≤ s.runningCount + free ∧
      ((∀ i, (launch free s).slot? i ≠ some .pending) ∨
        (launch free s).runningCount = s.runningCount + free) := by
  have hcount : (launch free s).runningCount = s.runningCount + (s.launchable free).length := by
    have hcount : (launch free s).runningCount + (s.launchable free).length * 0 =
        s.runningCount + (s.launchable free).length * 1 := launch_countP free s Slot.isRunning
    omega
  have hlength : (s.launchable free).length = min free (s.placesWith Slot.isPending).length :=
    List.length_take
  rw [hcount]
  refine ⟨by omega, ?_⟩
  obtain hlt | hle := Nat.lt_or_ge (s.placesWith Slot.isPending).length free
  · refine .inl fun i hi ↦ ?_
    rw [launch_slot?] at hi
    split at hi
    · cases hi
    · next hnot =>
      refine hnot ?_
      rw [State.launchable, List.take_of_length_le hlt.le]
      exact State.mem_placesWith.2 ⟨_, hi, rfl⟩
  · exact .inr (by omega)

theorem launch_invocationCount (free : Nat) (s : State σ ι) :
    (launch free s).invocationCount = s.invocationCount :=
  Nat.add_right_cancel (launch_countP free s Slot.isInvoked)

end Counts

/-! ## Runs -/

variable {p : Production} {before : Rehearsal.Shared} {lots : Nat → Lot} {s s' : ScriptState} {t : Turn}
  {i : Nat}

/-- The number of components that are tested at once. -/
def Production.limit (p : Production) : Nat :=
  p.policy.parallelism.toNat

/-- What is underway in a run, with what the runner makes of it, given its state before the run. -/
structure Load (p : Production) (before : Rehearsal.Shared) (s : ScriptState) : Prop where
  bound : s.runningCount ≤ p.limit
  active : s.shared.active = before.active + s.invocationCount
  peak : s.shared.peak ≤ max before.peak (before.active + p.limit)

/-- A run leaves no place idle for which there is work. -/
structure Capacity (p : Production) (before : Rehearsal.Shared) (s : ScriptState) : Prop extends
    Load p before s where
  filled : s.coordinator.isWaiting = true → s.halted = false → s.cancelled = false →
    (∀ i, s.slot? i ≠ some .pending) ∨ s.runningCount = p.limit

theorem Load.change (hs : Load p before s) (hrunning : s'.runningCount ≤ s.runningCount)
    (hinvoked : s'.invocationCount = s.invocationCount) (hshared : s'.shared = s.shared) :
    Load p before s' where
  bound := hrunning.trans hs.bound
  active := by
    rw [hshared, hinvoked]
    exact hs.active
  peak := by
    rw [hshared]
    exact hs.peak

/-- The runner accounts for what a turn does to its invocations. -/
theorem Invoked.accounts {policy : Policy} {c : String} {base peak limit : Nat}
    (h : Invoked policy i c s s')
    (hcount : s'.invocationCount + (s.isInvoked i).toNat =
      s.invocationCount + (s'.isInvoked i).toNat)
    (hlimit : s'.invocationCount ≤ limit) (hactive : s.shared.active = base + s.invocationCount)
    (hpeak : s.shared.peak ≤ max peak (base + limit)) :
    s'.shared.active = base + s'.invocationCount ∧ s'.shared.peak ≤ max peak (base + limit) := by
  cases h with
  | rests shared invoked =>
    rw [invoked] at hcount
    rw [shared]
    exact ⟨by omega, hpeak⟩
  | enters fresh shared invoked =>
    have hbefore : s.isInvoked i = false := by
      obtain ⟨slot, hslot, hfresh⟩ := (Option.any_eq_true _ _).1 fresh
      rw [State.isInvoked, hslot, Option.any_some, Slot.isInvoked_of_isFresh hfresh]
    rw [hbefore, invoked, Bool.toNat_false, Bool.toNat_true] at hcount
    simp only [shared, Rehearsal.Shared.enter]
    exact ⟨by omega, by omega⟩
  | leaves invoked shared invoked' =>
    rw [invoked, invoked', Bool.toNat_false, Bool.toNat_true] at hcount
    simp only [shared, Rehearsal.Shared.leave]
    exact ⟨by omega, hpeak⟩
  | returns invoked shared invoked' =>
    rw [invoked, invoked', Bool.toNat_true] at hcount
    have hpos : 0 < s.invocationCount := by
      obtain ⟨slot, hslot, h⟩ := (Option.any_eq_true _ _).1 invoked
      obtain ⟨c, hc⟩ := State.slot?_eq_some.1 hslot
      exact List.countP_pos_iff.2 ⟨_, List.mem_of_getElem? hc, h⟩
    simp only [shared, Rehearsal.Shared.enter, Rehearsal.Shared.leave]
    exact ⟨by omega, by omega⟩

theorem Told.isWaiting (h : Told s s') (hdone : s.isDone = false)
    (hwaiting : s'.coordinator.isWaiting = true) : s.coordinator.isWaiting = true := by
  obtain ⟨woken, woken', hco, -⟩ | ⟨left, left', cause, -, hco⟩ | hdone' := h.coordinator
  · rw [hco]
    rfl
  · rw [hco] at hwaiting
    cases hwaiting
  · cases hdone.symm.trans hdone'

namespace Capacity

theorem turned (hs : Capacity p before s) (hplay : Play p lots (s.before t))
    (ht : t.place? = some i) : Capacity p before (handle p.setup t s) := by
  have hturned := handle_turned p.setup_isQuiet ht s
  have hbound := hs.bound
  rw [← hturned.runningCount] at hbound
  obtain ⟨c, -, hinvoked⟩ := hplay.handle_invoked ht
  obtain ⟨hactive, hpeak⟩ := hinvoked.accounts (hturned.countP Slot.isInvoked)
    ((invocationCount_le_runningCount _).trans hbound) hs.active hs.peak
  refine ⟨⟨hbound, hactive, hpeak⟩, fun hwaiting hhalted hcancelled ↦ ?_⟩
  rw [hturned.coordinator] at hwaiting
  rw [hturned.halted] at hhalted
  rw [hturned.cancelled] at hcancelled
  rw [hturned.runningCount]
  refine (hs.filled hwaiting hhalted hcancelled).imp_left fun hpending j hj ↦ ?_
  exact hpending j ((hturned.slot?_iff rfl).1 hj)

theorem told (hs : Capacity p before s) (hdone : s.isDone = false) (h : Told s s') :
    Capacity p before s' := by
  have hrunning : s'.runningCount = s.runningCount := by
    rw [State.runningCount, h.places, State.runningCount]
  have hinvoked : s'.invocationCount = s.invocationCount := by
    rw [State.invocationCount, h.places, State.invocationCount]
  refine ⟨hs.toLoad.change hrunning.le hinvoked h.shared, fun hwaiting hhalted hcancelled ↦ ?_⟩
  have hwaiting' := h.isWaiting hdone hwaiting
  have hcancelled' : s.cancelled = false := by
    by_contra hc
    rw [h.cancelled (by simpa using hc)] at hcancelled
    cases hcancelled
  have hslot (i : Nat) : s'.slot? i = s.slot? i := by rw [State.slot?, h.places, State.slot?]
  simpa only [hrunning, hslot] using hs.filled hwaiting' (h.halted ▸ hhalted) hcancelled'

/-! ### The coordinator -/

theorem collected (hs : Load p before s) (habort : s.abort? p.setup = none) :
    Load p before (s.collected p.setup) :=
  hs.change (collected_runningCount habort) (collected_invocationCount habort)
    (Coordinated.collected p.setup s).shared

/-- A run that ends or waits for its end does not wait for free places. -/
theorem of_not_waiting (hs : Load p before s) (hwaiting : s.coordinator.isWaiting = false) :
    Capacity p before s :=
  ⟨hs, fun h ↦ by cases hwaiting.symm.trans h⟩

theorem drain (hs : Load p before s) (cause : Option Abort) : Capacity p before (drain cause s) := by
  refine of_not_waiting (hs.change (drain_runningCount cause s).le (drain_invocationCount cause s)
    (Coordinated.drain cause s).shared) ?_
  rw [drain_eq]
  rfl

theorem complete (hs : Load p before s) : Capacity p before (complete p.setup s) := by
  obtain ⟨hrunning, hinvoked⟩ := complete_counts p.setup_isQuiet s
  refine of_not_waiting (hs.change hrunning.le hinvoked
    (Coordinated.complete p.setup_isQuiet s).shared) ?_
  obtain ⟨new, heq, -⟩ := complete_eq p.setup_isQuiet s
  rw [heq]
  rfl

theorem concludeDrain (hs : Load p before s) (hidle : s.activeCount = 0) :
    Capacity p before (concludeDrain p.setup none s) := by
  obtain ⟨hrunning, hinvoked⟩ := concludeDrain_counts p.setup_isQuiet s
  have hle := invocationCount_le_activeCount s
  refine of_not_waiting (hs.change (by omega) (by omega)
    (Coordinated.concludeDrain p.setup_isQuiet none s).shared) ?_
  obtain ⟨new, heq, -⟩ := concludeDrain_eq_none p.setup_isQuiet s
  rw [heq]
  rfl

/-- Components are started until no place is free, or none is left. -/
theorem fill (hs : Load p before s) : Capacity p before (fill p.setup s) := by
  have hfilled : Load p before (s.filled p.setup) ∧ ((s.filled p.setup).halted = false →
      (s.filled p.setup).cancelled = false → (∀ i, (s.filled p.setup).slot? i ≠ some .pending) ∨
        (s.filled p.setup).runningCount = p.limit) := by
    rw [State.filled]
    split
    · next hstop =>
      refine ⟨hs, fun hhalted hcancelled ↦ ?_⟩
      simp [hhalted, hcancelled] at hstop
    · obtain ⟨hle, hfull⟩ := launch_runningCount (p.limit - s.runningCount) s
      have hbound := hs.bound
      have hshared : (launch (p.limit - s.runningCount) s).shared = s.shared := by rw [launch_eq]
      change Load p before (launch (p.limit - s.runningCount) s) ∧ _
      refine ⟨⟨hle.trans (by omega), ?_, ?_⟩, fun _ _ ↦ hfull.imp_right fun h ↦ h.trans (by omega)⟩
      · rw [hshared, launch_invocationCount]
        exact hs.active
      · rw [hshared]
        exact hs.peak
  rw [fill_eq]
  split
  · exact complete hfilled.1
  · exact ⟨⟨hfilled.1.bound, hfilled.1.active, hfilled.1.peak⟩, fun _ ↦ hfilled.2⟩

theorem coordinate (hs : Load p before s) (h : Coordinates p s s') : Capacity p before s' := by
  have hnote {s : ScriptState} (hs : Load p before s) (line : LogLine) :
      Load p before (s.note (.log line)) := ⟨hs.bound, hs.active, hs.peak⟩
  cases h with
  | fills waiting cancelled abort eq =>
    rw [eq]
    exact fill (collected hs abort)
  | drains line waiting cancelled abort eq =>
    rw [eq]
    exact drain (hnote (collected hs abort) line) none
  | ends line waiting cancelled abort idle eq =>
    rw [eq]
    exact concludeDrain (hnote (collected hs abort) line) (activeCount_of_runningCount idle)
  | drained draining idle eq =>
    rw [eq]
    exact concludeDrain hs idle

/-! ### Steps -/

theorem step (sound : p.Sound) (hcontrol : Control s) (hplay : Play p lots s)
    (hdone : s.isDone = false) (hs : Capacity p before s) : Capacity p before (step p.setup s) := by
  have hs' (rest : List Turn) : Capacity p before { s with queue := rest } :=
    ⟨⟨hs.bound, hs.active, hs.peak⟩, hs.filled⟩
  cases hplay.stepped sound hcontrol hdone with
  | advances queue eq =>
    rw [eq]
    exact ⟨⟨hs.bound, hs.active, hs.peak⟩, hs.filled⟩
  | turns t i rest queue place eq =>
    rw [eq]
    rw [State.eq_before queue] at hplay
    exact (hs' rest).turned hplay place
  | tells t rest queue place ne eq =>
    rw [eq]
    exact (hs' rest).told hdone (told_of_place_none p.setup place ne _)
  | coordinates rest queue coordinates => exact coordinate (hs' rest).toLoad coordinates

theorem steps (sound : p.Sound) (hcontrol : Control s) (hplay : Play p lots s)
    (hs : Capacity p before s) (n : Nat) : Capacity p before (steps p.setup n s) :=
  Play.steps_keep sound (fun hcontrol hplay hdone hs ↦ hs.step sound hcontrol hplay hdone) hcontrol
    hplay hs n

theorem begin (p : Production) (before : Rehearsal.Shared) (cancellation : Cancellation) (now : Float) :
    Capacity p before (begin p.setup cancellation now before p.components) := by
  have hnone (q : Slot Rehearsal.Invocation → Bool) (hq : q .pending = false) :
      (State.opening p.setup cancellation now before p.components).places.countP (q ·.slot) = 0 := by
    refine List.countP_eq_zero.2 fun place hplace ↦ ?_
    obtain ⟨c, -, rfl⟩ := List.mem_map.1 hplace
    simp [hq]
  have hopening : Load p before (.opening p.setup cancellation now before p.components) := by
    refine ⟨?_, ?_, le_max_left _ _⟩
    · exact (hnone Slot.isRunning rfl).le.trans (Nat.zero_le _)
    · exact congrArg (before.active + ·) (hnone Slot.isInvoked rfl).symm
  exact fill hopening

/-- While nothing is to be done, all that is underway waits for the runner. -/
theorem invocationCount_eq (hcontrol : Control s) (hwaiting : s.coordinator.isWaiting = true)
    (hturns : s.turns = []) : s.invocationCount = s.runningCount := by
  have hcontrolled := hcontrol.controlled
  rw [State.Controlled] at hcontrolled
  split at hcontrolled
  · refine List.countP_congr fun place hplace ↦ ?_
    obtain ⟨i, hi⟩ := List.mem_iff_getElem?.1 hplace
    have hslot := State.slot?_of_place hi
    have hfinish : place.slot.finish? = none := by
      by_contra h
      obtain ⟨f, hf⟩ := Option.ne_none_iff_exists'.1 h
      have hnoticed := hcontrolled.noticed i f (by rw [State.finish?, hslot]; exact hf)
      rw [hturns] at hnoticed
      cases hnoticed
    have hfresh : place.slot.isFresh = false := by
      obtain ⟨pre, post, hpre, hwork, -⟩ := hcontrolled.fresh
      rw [hturns] at hpre
      obtain ⟨rfl, -⟩ := List.append_eq_nil_iff.1 hpre.symm
      by_contra h
      cases hwork i (by rw [State.isFresh, hslot]; simpa using h)
    rcases hp : place.slot with _ | ⟨_, _, _, _, _ | _ | _⟩ | _ <;>
      simp_all [Slot.isInvoked, Slot.isRunning, Slot.isFresh, Slot.finish?]
  · have hdue := hcontrolled.due
    rw [hturns] at hdue
    cases hdue
  · next hco =>
    rw [hco] at hwaiting
    cases hwaiting
  · next hco =>
    rw [hco] at hwaiting
    cases hwaiting

end Capacity

end Testbed.Run

import Testbed.Proofs.Run.Capacity
import Testbed.Proofs.Run.Comparison
import Testbed.Proofs.Run.Record

/-!
# Lineup

Components begin in the order of the registry: the turns of those that were started and have not begun
wait in that order, ahead of all that are pending.  The events of a run tell of its attempts in the
order in which the runner is called.
-/

namespace Testbed

open Run Clock

namespace Run

/-- No attempt was made yet. -/
def Slot.isUnbegun {ι : Type} (slot : Slot ι) : Bool :=
  slot.isPending || slot.isFresh

/-- The components of the events that satisfy a condition, in the order of the events. -/
def State.told {σ ι : Type} (q : Event → Bool) (s : State σ ι) : List String :=
  ((Journal.events s.journal).reverse.filter (q ·.2)).map (·.2.component)

/-- The event tells of the start of an attempt. -/
def Event.isStart (e : Event) : Bool :=
  e.phase = .started

/-- The event tells of the start of a first attempt. -/
def Event.isFirst (e : Event) : Bool :=
  e.phase = .started && e.attempt = 1

/-! ## What is told of attempts -/

theorem startedEvents_countP (c : String) (attempts : Nat) :
    (startedEvents c attempts).countP Event.isStart = attempts ∧
      (startedEvents c attempts).countP Event.isFirst = min attempts 1 := by
  induction attempts with
  | zero => exact ⟨rfl, rfl⟩
  | succ attempts ih =>
    obtain ⟨hstart, hfirst⟩ := ih
    have hone : Event.isFirst (startedEvent c (attempts + 1)) = decide (attempts = 0) := by
      simp [Event.isFirst, startedEvent]
    rw [startedEvents, List.countP_cons, List.countP_cons, hstart, hfirst, hone]
    refine ⟨rfl, ?_⟩
    cases attempts <;> simp

namespace Record

variable {r : Role} {v : View} {slot : Slot Rehearsal.Invocation}

/-- What is told of a component besides its attempts is their end. -/
theorem tells_eq (h : Record r v) : ∃ attempts rest, v.calls = r.earlier + attempts ∧
    v.tells = rest ++ startedEvents r.component attempts ∧ ∀ e ∈ rest, e.phase = .finished := by
  cases h with
  | pending slot calls told => exact ⟨0, [], calls, told, nofun⟩
  | fresh w slot stage attempt calls told => exact ⟨0, [], calls, told, nofun⟩
  | waiting w n awaits signals slot stage pos calls told => exact ⟨_, [], calls, told, nofun⟩
  | interrupted w attempts slot pos calls told => exact ⟨_, [], calls, told, nofun⟩
  | finished w o slot tested =>
    obtain ⟨attempts, elapsed, -, -, -, hcalls, htold⟩ := tested.told
    exact ⟨attempts, [_], hcalls, htold, by simp [Outcome.finish]⟩
  | settled o slot tested =>
    obtain ⟨attempts, elapsed, -, -, -, hcalls, htold⟩ := tested.told
    exact ⟨attempts, [_], hcalls, htold, by simp [Outcome.finish]⟩
  | skipped reason attempts slot omitted =>
    exact ⟨attempts, [_], omitted.calls, omitted.told, by simp [skipEvent]⟩

/-- The events tell of the attempts that the runner was called for. -/
theorem countP_tells (h : Record r v) : ∃ attempts, v.calls = r.earlier + attempts ∧
    v.tells.countP Event.isStart = attempts ∧ v.tells.countP Event.isFirst = min attempts 1 := by
  obtain ⟨attempts, rest, hcalls, htold, hrest⟩ := h.tells_eq
  obtain ⟨hstart, hfirst⟩ := startedEvents_countP r.component attempts
  have hnone {q : Event → Bool} (hq : ∀ e, e.phase = .finished → q e = false) : rest.countP q = 0 :=
    List.countP_eq_zero.2 fun e he ↦ by simp [hq e (hrest e he)]
  refine ⟨attempts, hcalls, ?_, ?_⟩
  · rw [htold, List.countP_append, hnone fun e he ↦ by simp [Event.isStart, he], hstart, Nat.zero_add]
  · rw [htold, List.countP_append, hnone fun e he ↦ by simp [Event.isFirst, he], hfirst, Nat.zero_add]

theorem calls_of_fresh (h : Record r v) (hslot : v.slot = some slot) (hfresh : slot.isFresh = true) :
    v.calls = r.earlier := by
  cases h with
  | pending slot => cases hslot.symm.trans slot; cases hfresh
  | fresh w slot stage attempt calls told => exact calls
  | waiting w n awaits signals slot stage =>
    cases hslot.symm.trans slot
    cases stage.symm.trans (Slot.isFresh_running.1 hfresh)
  | interrupted w attempts slot => cases hslot.symm.trans slot; cases hfresh
  | finished w o slot => cases hslot.symm.trans slot; cases hfresh
  | settled o slot => cases hslot.symm.trans slot; cases hfresh
  | skipped reason attempts slot => cases hslot.symm.trans slot; cases hfresh

theorem lt_calls_of_isInvoked (h : Record r v) (hslot : v.slot = some slot)
    (hinvoked : slot.isInvoked = true) : r.earlier < v.calls := by
  cases h with
  | pending slot => cases hslot.symm.trans slot; cases hinvoked
  | fresh w slot stage =>
    cases hslot.symm.trans slot
    obtain ⟨_, _, _, hsuspended⟩ := Slot.isInvoked_running.1 hinvoked
    cases stage.symm.trans hsuspended
  | waiting w n awaits signals slot stage pos calls told => omega
  | interrupted w attempts slot => cases hslot.symm.trans slot; cases hinvoked
  | finished w o slot => cases hslot.symm.trans slot; cases hinvoked
  | settled o slot => cases hslot.symm.trans slot; cases hinvoked
  | skipped reason attempts slot => cases hslot.symm.trans slot; cases hinvoked

end Record

/-! ## Turns about a place -/

variable {p : Production} {lots : Nat → Lot} {s s' : ScriptState} {t : Turn} {i j : Nat} {c : String}

/-- A turn tells of events about one component. -/
theorem told_turned (script : Script) (policy : Policy) (ht : t.place? = some i)
    (hc : ∀ place, s.places[i]? = some place → place.component = c) (q : Event → Bool) :
    ∃ n, (handle (script.setup policy) t s).told q = s.told q ++ List.replicate n c ∧
      ((handle (script.setup policy) t s).view i c).tells.countP q =
        n + (s.view i c).tells.countP q := by
  obtain ⟨new, hnew, hcomponent⟩ := handle_events (s := s) script policy ht hc
  refine ⟨new.countP (q ·.2), ?_, ?_⟩
  · rw [State.told, hnew, List.reverse_append, List.filter_append, List.map_append]
    refine congrArg (s.told q ++ ·) (List.eq_replicate_iff.2 ⟨?_, fun d hd ↦ ?_⟩)
    · rw [List.length_map, ← List.countP_eq_length_filter, List.countP_reverse]
    · obtain ⟨e, he, rfl⟩ := List.mem_map.1 hd
      exact hcomponent e (List.mem_reverse.1 (List.mem_filter.1 he).1)
  · have hevents : ((handle (script.setup policy) t s).view i c).events =
        new ++ (s.view i c).events := by
      change List.filter _ (Journal.events _) = _
      rw [hnew, List.filter_append, List.filter_eq_self.2 (by simpa using hcomponent)]
      rfl
    rw [View.tells, hevents, List.map_append, List.countP_append, List.countP_map]
    rfl

/-- A turn tells of the attempts that it makes. -/
theorem Recorded.told_turned (sound : p.Sound) (hrecorded : Recorded p s)
    (hcomponents : s.places.map (·.component) = p.components) (hc : p.components[i]? = some c)
    (ht : t.place? = some i) :
    ∃ before after, (s.view i c).calls = p.earlier c + before ∧
      ((handle p.setup t s).view i c).calls = p.earlier c + after ∧
      (handle p.setup t s).told Event.isStart =
        s.told Event.isStart ++ List.replicate (after - before) c ∧
      (handle p.setup t s).told Event.isFirst =
        s.told Event.isFirst ++ List.replicate (min after 1 - min before 1) c := by
  obtain ⟨slot, hplace⟩ := Recorded.place hcomponents hc
  have hcomponent : ∀ place, s.places[i]? = some place → place.component = c :=
    fun place h ↦ congrArg Place.component (Option.some_inj.1 (h.symm.trans hplace))
  obtain ⟨before, hcalls, hstarts, hfirst⟩ := (hrecorded i c hc).countP_tells
  obtain ⟨after, hcalls', hstarts', hfirst'⟩ :=
    (hrecorded.turned sound hcomponents ht i c hc).countP_tells
  obtain ⟨m, hm, hcount⟩ := Run.told_turned p.script p.policy ht hcomponent Event.isStart
  obtain ⟨n, hn, hcount'⟩ := Run.told_turned p.script p.policy ht hcomponent Event.isFirst
  change ((handle p.setup t s).view i c).tells.countP _ = _ at hcount hcount'
  obtain rfl : m = after - before := by omega
  obtain rfl : n = min after 1 - min before 1 := by omega
  exact ⟨before, after, hcalls, hcalls', hm, hn⟩

/-- The coordinator tells of no attempts. -/
theorem Coordinated.told (h : Coordinated s s') {q : Event → Bool}
    (hq : ∀ e, e.phase = .finished → q e = false) : s'.told q = s.told q := by
  obtain ⟨new, hnew, hskips⟩ := h.journal
  have hnone : (Journal.events new).reverse.filter (q ·.2) = [] := by
    refine List.filter_eq_nil_iff.2 fun e he ↦ ?_
    obtain ⟨c, hc⟩ := hskips.events e (List.mem_reverse.1 he)
    simp [hq e.2 (by rw [hc]; rfl)]
  rw [State.told, hnew, Journal.events_append, List.reverse_append, List.filter_append, hnone,
    List.append_nil, State.told]

/-- Whatever is about to begin is on course, and the run goes on. -/
theorem Play.fresh (hs : Play p lots s) (hi : s.isFresh i = true) :
    s.coordinator.isWaiting = true ∧ Going p lots s ∧ ∃ c τ, p.components[i]? = some c ∧
      lots i = .started τ ∧ OnCourse (p.role c) i τ (s.view i c) := by
  obtain ⟨slot, hslot, hfresh⟩ := (Option.any_eq_true _ _).1 hi
  have hactive := Slot.isActive_of_isFresh hfresh
  rw [Play] at hs
  split at hs
  · next hco =>
    obtain ⟨c, hc⟩ := hs.toScene.exists_component hslot
    have hstanding := hs.standing i c hc
    cases hlot : lots i with
    | untouched =>
      rw [hlot] at hstanding
      cases hslot.symm.trans hstanding.2
      cases hfresh
    | started τ =>
      rw [hlot] at hstanding
      exact ⟨by rw [hco]; rfl, hs, c, τ, hc, rfl, hstanding⟩
  · obtain ⟨c, hc⟩ := hs.2.toScene.exists_component hslot
    have hstanding := hs.2.standing i c hc
    cases hlot : lots i with
    | untouched =>
      rw [hlot] at hstanding
      cases hslot.symm.trans hstanding.2
      cases hfresh
    | started τ =>
      rw [hlot] at hstanding
      obtain ⟨-, hinactive⟩ | hleaving := hstanding
      · cases hactive.symm.trans (hinactive slot hslot)
      · cases hleaving with
        | waits w cue awaits rung slot stage =>
          cases hslot.symm.trans slot
          cases stage.symm.trans (Slot.isFresh_running.1 hfresh)
        | left w slot =>
          cases hslot.symm.trans slot
          cases hfresh
  · obtain ⟨c, hc⟩ := hs.2.toScene.exists_component hslot
    obtain ⟨o, ho, -⟩ := hs.2.settles hc
    cases hslot.symm.trans ho
    cases hfresh

theorem view_turns (s : ScriptState) (i : Nat) (c : String) :
    (s.view i c).queue ++ (s.view i c).next = s.turns.filter (·.place? = some i) :=
  (List.filter_append ..).symm

/-- What is about to begin waits for its first turn alone. -/
theorem OnCourse.of_fresh {r : Role} {τ : Float} (h : OnCourse r i τ (s.view i c))
    (hi : s.isFresh i = true) : s.turns.filter (·.place? = some i) = [.work i] ∧
      s.timers.filter (·.turn.place? = some i) = [] := by
  obtain ⟨slot, hslot, hfresh⟩ := (Option.any_eq_true _ _).1 hi
  cases h with
  | fresh slot now turn timers => exact ⟨(view_turns s i c).symm.trans turn, timers⟩
  | underway attempt start w slot pos instant course pace =>
    cases hslot.symm.trans slot
    obtain ⟨awaits, signals, hstage, -⟩ := pace.stage
    cases hstage.symm.trans (Slot.isFresh_running.1 hfresh)
  | finished w slot => cases hslot.symm.trans slot; cases hfresh
  | settled o slot => cases hslot.symm.trans slot; cases hfresh

/-- Nothing is queued about what is pending. -/
theorem Going.turns_of_pending (hs : Going p lots s) (hi : s.slot? i = some .pending) :
    s.turns.filter (·.place? = some i) = [] := by
  obtain ⟨c, hc⟩ := hs.toScene.exists_component hi
  have hstanding := hs.standing i c hc
  obtain ⟨k, -, hk⟩ := hs.started
  rw [(hk i).2 ((hs.slot?_eq_pending hk).1 hi).1] at hstanding
  obtain ⟨hqueue, hnext, -⟩ := hstanding.1.idle
  rw [← view_turns s i c, hqueue, hnext]
  rfl

/-! ## Components in line -/

theorem State.any_isUnbegun : (s.slot? i).any Slot.isUnbegun = true ↔
    s.slot? i = some .pending ∨ s.isFresh i = true := by
  rw [State.isFresh]
  rcases s.slot? i with _ | _ | ⟨_, _, _, _, _ | _ | _⟩ | _ <;>
    simp [Slot.isUnbegun, Slot.isPending, Slot.isFresh]

/-- The turn is the first attempt at a component. -/
def State.begins {σ ι : Type} (s : State σ ι) : Turn → Bool
  | .work i => s.isFresh i
  | _ => false

/-- The first `k` components have begun, and the others are in line. -/
structure Lineup (p : Production) (k : Nat) (s : ScriptState) : Prop where
  begun : s.told Event.isFirst = p.components.take k
  unbegun : s.coordinator.isWaiting = true → ∀ i < p.components.length,
    k ≤ i ↔ (s.slot? i).any Slot.isUnbegun = true
  turns : s.turns.filter s.begins = (s.placesWith Slot.isFresh).map .work

namespace Lineup

variable {k : Nat}

theorem begins_of_isFresh (hfresh : ∀ i, s'.isFresh i = s.isFresh i) : s'.begins = s.begins := by
  funext t
  cases t with
  | work i => exact hfresh i
  | expire | ring | cancel | watch | notice | coordinate => rfl

/-- Nothing is in line to begin. -/
theorem of_not_fresh (hbegun : s.told Event.isFirst = p.components.take k)
    (hunbegun : s.coordinator.isWaiting = true → ∀ i < p.components.length,
      k ≤ i ↔ (s.slot? i).any Slot.isUnbegun = true)
    (hfresh : ∀ i, s.isFresh i = false) : Lineup p k s := by
  refine ⟨hbegun, hunbegun, ?_⟩
  have hplaces : s.placesWith Slot.isFresh = [] :=
    List.filter_eq_nil_iff.2 fun i _ hi ↦ by cases (hfresh i).symm.trans hi
  rw [hplaces, List.filter_eq_nil_iff.2]
  · rfl
  · rintro (i | _ | _ | _ | _ | _ | _) - <;> simp [State.begins, hfresh]

/-- No component begins and none is started. -/
theorem change (hs : Lineup p k s) (hbegun : s'.told Event.isFirst = s.told Event.isFirst)
    (hwaiting : s'.coordinator.isWaiting = true → s.coordinator.isWaiting = true)
    (hcomponents : s'.places.map (·.component) = s.places.map (·.component))
    (hfresh : ∀ i, s'.isFresh i = s.isFresh i)
    (hpending : ∀ i, s'.slot? i = some .pending ↔ s.slot? i = some .pending)
    (hturns : ∃ new, s'.turns = s.turns ++ new ∧ ∀ u ∈ new, s.begins u = false) : Lineup p k s' where
  begun := hbegun.trans hs.begun
  unbegun h i hi := by
    rw [hs.unbegun (hwaiting h) i hi, State.any_isUnbegun, State.any_isUnbegun, hfresh, hpending]
  turns := by
    have hlength : s'.places.length = s.places.length := by
      simpa using congrArg List.length hcomponents
    obtain ⟨new, hnew, hnone⟩ := hturns
    have hnone' : new.filter s.begins = [] :=
      List.filter_eq_nil_iff.2 fun u hu ↦ by simp [hnone u hu]
    rw [begins_of_isFresh hfresh, hnew, List.filter_append, hnone', List.append_nil, hs.turns,
      State.placesWith_congr hlength]
    exact fun i _ ↦ hfresh i

/-- A component whose first attempt is made is the next one in line. -/
theorem eq_of_fresh (hs : Lineup p k (s.before (.work i))) (hplay : Play p lots (s.before (.work i)))
    (hi : s.isFresh i = true) : i = k ∧ ∃ more, s.placesWith Slot.isFresh = i :: more ∧
      s.turns.filter s.begins = more.map .work := by
  obtain ⟨hwaiting, hgoing, c, τ, hc, hlot, -⟩ := hplay.fresh hi
  obtain ⟨hlt, -⟩ := List.getElem?_eq_some_iff.1 hc
  have hturns := hs.turns
  rw [State.turns_before, List.filter_cons_of_pos (by exact hi)] at hturns
  cases hplaces : s.placesWith Slot.isFresh with
  | nil =>
    rw [show (s.before (.work i)).placesWith Slot.isFresh = s.placesWith Slot.isFresh from rfl,
      hplaces] at hturns
    cases hturns
  | cons j more =>
    rw [show (s.before (.work i)).placesWith Slot.isFresh = s.placesWith Slot.isFresh from rfl,
      hplaces, List.map_cons, List.cons_eq_cons] at hturns
    obtain ⟨hij, hmore⟩ := hturns
    obtain rfl : i = j := by simpa using hij
    refine ⟨?_, more, rfl, hmore⟩
    have hki : k ≤ i := (hs.unbegun hwaiting i hlt).2 (State.any_isUnbegun.2 (.inr hi))
    by_contra hne
    have hlt' : k < i := by omega
    obtain hpending | hfresh := State.any_isUnbegun.1 ((hs.unbegun hwaiting k (by omega)).1 le_rfl)
    · -- what is pending comes after what was started
      obtain ⟨n, -, hn⟩ := hgoing.started
      have hle := ((hgoing.slot?_eq_pending hn).1 hpending).1
      rw [(hn i).2 (by omega)] at hlot
      cases hlot
    · have hmem : k ∈ s.placesWith Slot.isFresh := by
        obtain ⟨slot, hslot, h⟩ := (Option.any_eq_true _ _).1 hfresh
        exact State.mem_placesWith.2 ⟨slot, hslot, h⟩
      have hsorted : (s.placesWith Slot.isFresh).Pairwise (· < ·) := List.pairwise_lt_range.filter _
      rw [hplaces] at hmem hsorted
      obtain rfl | hmem := List.mem_cons.1 hmem
      · omega
      · have := (List.pairwise_cons.1 hsorted).1 k hmem
        omega

/-- The turns that follow from a turn about a place do not begin anything. -/
theorem begins_new (h : Turned i s s') (hi : s'.isFresh i = false) :
    ∃ new, s'.turns = s.turns ++ new ∧ ∀ u ∈ new, s'.begins u = false := by
  obtain ⟨new, hnew, hnotice⟩ := h.turns
  refine ⟨new, hnew, fun u hu ↦ ?_⟩
  obtain hplace | rfl := hnotice u hu
  · cases u with
    | work j =>
      obtain rfl : j = i := by simpa using hplace
      exact hi
    | expire | ring | cancel | watch | notice | coordinate => rfl
  · rfl

/-- The first attempt at a component is told of once. -/
theorem told_begins (sound : p.Sound) (hcomponents : s.places.map (·.component) = p.components)
    (hrecorded : Recorded p s) (hc : p.components[i]? = some c) (hi : s.isFresh i = true) :
    (handle p.setup (.work i) s).told Event.isFirst = s.told Event.isFirst ++ [c] := by
  obtain ⟨slot, hslot, hfresh⟩ := (Option.any_eq_true _ _).1 hi
  obtain ⟨slot', hplace⟩ := Recorded.place hcomponents hc
  obtain rfl : slot' = slot :=
    Option.some_inj.1 ((State.slot?_of_place hplace).symm.trans hslot)
  obtain ⟨before, after, hcalls, hcalls', -, htold⟩ :=
    hrecorded.told_turned sound hcomponents hc (Turn.place?_work i)
  have hzero := (hrecorded i c hc).calls_of_fresh hslot hfresh
  have hone : ((handle p.setup (.work i) s).view i c).calls = (s.view i c).calls + 1 := by
    obtain ⟨w, rfl, hstage⟩ := Slot.isFresh_iff.1 hfresh
    exact congrArg View.calls (view_work_fresh p.script p.policy hplace hstage)
  change (s.view i c).calls = p.earlier c at hzero
  obtain rfl : before = 0 := by omega
  obtain rfl : after = 1 := by omega
  exact htold

/-- After its turn a component is no longer about to begin. -/
theorem isFresh_begins (i j : Nat) :
    (handle p.setup (.work i) s).isFresh j = (decide (j ≠ i) && s.isFresh j) := by
  by_cases hj : j = i
  · rw [hj, decide_eq_false (by simp), Bool.false_and]
    exact work_not_fresh p.setup_isQuiet i s
  · rw [decide_eq_true hj, Bool.true_and, State.isFresh, State.isFresh,
      (handle_turned p.setup_isQuiet (Turn.place?_work i) s).slot?_ne hj]

theorem placesWith_begins {more : List Nat} (hplaces : s.placesWith Slot.isFresh = i :: more) :
    (handle p.setup (.work i) s).placesWith Slot.isFresh = more := by
  have hnodup : (i :: more).Nodup := hplaces ▸ s.placesWith_nodup Slot.isFresh
  have hlength : (handle p.setup (.work i) s).places.length = s.places.length := by
    simpa using congrArg List.length
      (handle_turned p.setup_isQuiet (Turn.place?_work i) s).components
  calc
    (handle p.setup (.work i) s).placesWith Slot.isFresh =
        (s.placesWith Slot.isFresh).filter (· ≠ i) := by
      rw [State.placesWith, hlength, State.placesWith, List.filter_filter]
      exact List.filter_congr fun j _ ↦ isFresh_begins i j
    _ = more := by
      rw [hplaces, List.filter_cons_of_neg (by simp), List.filter_eq_self.2]
      exact fun j hj ↦ decide_eq_true fun h ↦ (List.nodup_cons.1 hnodup).1 (h ▸ hj)

theorem turns_begins {more : List Nat} (hmore : i ∉ more)
    (hturns : s.turns.filter s.begins = more.map .work) :
    (handle p.setup (.work i) s).turns.filter (handle p.setup (.work i) s).begins =
      more.map .work := by
  obtain ⟨new, hnew, hnone⟩ := begins_new (handle_turned p.setup_isQuiet (Turn.place?_work i) s)
    (work_not_fresh p.setup_isQuiet i s)
  have hnone' : new.filter (handle p.setup (.work i) s).begins = [] :=
    List.filter_eq_nil_iff.2 fun u hu ↦ by simp [hnone u hu]
  rw [hnew, List.filter_append, hnone', List.append_nil, ← hturns]
  refine List.filter_congr fun u hu ↦ ?_
  cases u with
  | work j =>
    change (handle p.setup (.work i) s).isFresh j = s.isFresh j
    rw [isFresh_begins]
    cases hj : s.isFresh j with
    | false => exact Bool.and_false _
    | true =>
      have hin : Turn.work j ∈ s.turns.filter s.begins := List.mem_filter.2 ⟨hu, hj⟩
      rw [hturns] at hin
      obtain ⟨m, hm, hmj⟩ := List.mem_map.1 hin
      cases hmj
      have hji : j ≠ i := fun h ↦ hmore (h ▸ hm)
      rw [decide_eq_true hji, Bool.true_and]
  | expire | ring | cancel | watch | notice | coordinate => rfl

/-- A component begins. -/
theorem begins (sound : p.Sound) (hs : Lineup p k (s.before (.work i)))
    (hplay : Play p lots (s.before (.work i))) (hrecorded : Recorded p s) (hi : s.isFresh i = true) :
    Lineup p (k + 1) (handle p.setup (.work i) s) := by
  obtain ⟨rfl, more, hplaces, hmore⟩ := hs.eq_of_fresh hplay hi
  obtain ⟨-, hgoing, c, τ, hc, -⟩ := hplay.fresh hi
  have hturned := handle_turned p.setup_isQuiet (Turn.place?_work i) s
  have hnodup : (i :: more).Nodup := hplaces ▸ s.placesWith_nodup Slot.isFresh
  refine ⟨?_, fun hwaiting j hj ↦ ?_, ?_⟩
  · have htold := told_begins sound (by exact hgoing.components) hrecorded hc hi
    have hbegun : s.told Event.isFirst = p.components.take i := hs.begun
    rw [htold, hbegun, List.take_add_one, hc]
    rfl
  · have hbefore : i ≤ j ↔ (s.slot? j).any Slot.isUnbegun = true :=
      hs.unbegun (hturned.coordinator ▸ hwaiting) j hj
    by_cases hji : j = i
    · subst hji
      rw [State.any_isUnbegun, hturned.slot?_iff rfl, isFresh_begins]
      obtain ⟨slot, hslot, hfresh⟩ := (Option.any_eq_true _ _).1 hi
      refine iff_of_false (by omega) ?_
      rintro (hpending | hfalse)
      · cases hslot.symm.trans hpending
        cases hfresh
      · simp at hfalse
    · rw [hturned.slot?_ne hji, ← hbefore]
      omega
  · rw [placesWith_begins hplaces, turns_begins (List.nodup_cons.1 hnodup).1 hmore]

/-- A turn about a place at which nothing is about to begin. -/
theorem turned (sound : p.Sound) (hs : Lineup p k (s.before t)) (hplay : Play p lots (s.before t))
    (hcomponents : s.places.map (·.component) = p.components) (hrecorded : Recorded p s)
    (ht : t.place? = some i) (hi : s.isFresh i = false) : Lineup p k (handle p.setup t s) := by
  have hs' : Lineup p k s := by
    refine ⟨hs.begun, hs.unbegun, ?_⟩
    have hturns := hs.turns
    rw [State.turns_before, List.filter_cons_of_neg] at hturns
    · exact hturns
    · cases t with
      | work j =>
        obtain rfl : j = i := by simpa using ht
        simp [State.begins, hi]
      | expire | ring | cancel | watch | notice | coordinate => simp [State.begins]
  cases hactive : s.isActive i with
  | false =>
    rw [handle_inactive ht hactive]
    exact hs'
  | true =>
    have hturned := handle_turned p.setup_isQuiet ht s
    have hfresh (j : Nat) : (handle p.setup t s).isFresh j = s.isFresh j := by
      by_cases hj : j = i
      · subst hj
        rw [hi]
        by_contra h
        cases hi.symm.trans (hturned.isFresh_of (by simpa using h))
      · rw [State.isFresh, hturned.slot?_ne hj, State.isFresh]
    refine hs'.change ?_ (fun h ↦ hturned.coordinator ▸ h) hturned.components hfresh
      (fun j ↦ hturned.slot?_iff rfl) ?_
    · rw [State.isActive_eq, hi, Bool.false_or] at hactive
      obtain ⟨slot, hslot, hinvoked⟩ := (Option.any_eq_true _ _).1 hactive
      obtain ⟨c, hplace⟩ := State.slot?_eq_some.1 hslot
      have hc : p.components[i]? = some c := by
        rw [← hcomponents, List.getElem?_map, hplace]
        rfl
      -- the runner was called before, so that the first attempt was told of
      have hlt := (hrecorded i c hc).lt_calls_of_isInvoked hslot hinvoked
      have hle : (s.view i c).calls ≤ ((handle p.setup t s).view i c).calls := by
        obtain ⟨d, -, hinvoked⟩ := hplay.handle_invoked ht
        exact hinvoked.count_le c
      obtain ⟨before, after, hcalls, hcalls', -, htold⟩ :=
        hrecorded.told_turned sound hcomponents hc ht
      change p.earlier c < (s.view i c).calls at hlt
      obtain hnone : min after 1 - min before 1 = 0 := by omega
      rwa [hnone, List.replicate_zero, List.append_nil] at htold
    · rw [← begins_of_isFresh hfresh]
      exact begins_new hturned ((hfresh i).trans hi)

/-! ### Other turns -/

theorem advance (hs : Lineup p k s) (hplay : Play p lots s) (hqueue : s.queue = []) :
    Lineup p k s.advance := by
  refine hs.change rfl id rfl (fun _ ↦ rfl) (fun _ ↦ Iff.rfl) ?_
  have hturns : s.advance.turns =
      s.turns ++ (s.timers.filter (·.due ≤ s.nextInstant)).map (·.turn) := by
    simp [State.advance, State.turns, hqueue, List.partition_eq_filter_filter]
  refine ⟨_, hturns, fun u hu ↦ ?_⟩
  obtain ⟨timer, htimer, rfl⟩ := List.mem_map.1 hu
  cases hturn : timer.turn with
  | work i =>
    by_contra hbegins
    have hi : s.isFresh i = true := by simpa [State.begins] using hbegins
    obtain ⟨-, -, c, τ, hc, -, hcourse⟩ := hplay.fresh hi
    have hnone := (hcourse.of_fresh hi).2
    rw [List.filter_eq_nil_iff] at hnone
    exact hnone timer (List.mem_filter.1 htimer).1 (by simp [hturn])
  | expire | ring | cancel | watch | notice | coordinate => rfl

/-- What tells the coordinator something queues turns about the run alone. -/
theorem tells_turns (setup : Setup Rehearsal.Shared Rehearsal.Invocation) (ht : t.place? = none)
    (hne : t ≠ .coordinate) (s : ScriptState) :
    ∃ new, (handle setup t s).turns = s.turns ++ new ∧ ∀ u ∈ new, u.place? = none := by
  obtain hturns | hturns := (handle_tells setup ht hne s).turns
  · exact ⟨[], by rw [hturns, List.append_nil], nofun⟩
  · exact ⟨_, hturns, by simp⟩

theorem told (hs : Lineup p k (s.before t)) (hdone : s.isDone = false) (ht : t.place? = none)
    (hne : t ≠ .coordinate) : Lineup p k (handle p.setup t s) := by
  have htold := told_of_place_none p.setup ht hne s
  have hbegins {u : Turn} (hu : u.place? = none) (s : ScriptState) : s.begins u = false := by
    cases u with
    | work => cases hu
    | expire | ring | cancel | watch | notice | coordinate => rfl
  have hs' : Lineup p k s := by
    refine ⟨hs.begun, hs.unbegun, ?_⟩
    have hturns := hs.turns
    rwa [State.turns_before, List.filter_cons_of_neg (by simp [hbegins ht])] at hturns
  have hslot (i : Nat) : (handle p.setup t s).slot? i = s.slot? i := by
    rw [State.slot?, htold.places, State.slot?]
  refine hs'.change ?_ (htold.isWaiting hdone) (by rw [htold.places]) (fun i ↦ ?_) (fun i ↦ ?_) ?_
  · rw [State.told, htold.journal, State.told]
  · rw [State.isFresh, hslot, State.isFresh]
  · rw [hslot]
  · obtain ⟨new, hnew, hplace⟩ := tells_turns p.setup ht hne s
    exact ⟨new, hnew, fun u hu ↦ hbegins (hplace u hu) s⟩

/-! ### The coordinator -/

theorem filter_mem_of_sublist {l l' : List Nat} (h : l'.Sublist l) (hnodup : l.Nodup) :
    l.filter (· ∈ l') = l' := by
  induction h with
  | slnil => rfl
  | cons a h ih =>
    obtain ⟨ha, hnodup⟩ := List.nodup_cons.1 hnodup
    rw [List.filter_cons_of_neg, ih hnodup]
    simpa using fun h' ↦ ha (h.subset h')
  | cons_cons a h ih =>
    obtain ⟨ha, hnodup⟩ := List.nodup_cons.1 hnodup
    rw [List.filter_cons_of_pos (by simp)]
    refine congrArg (a :: ·) ((List.filter_congr fun b hb ↦ ?_).trans (ih hnodup))
    have hne : b ≠ a := fun h ↦ ha (h ▸ hb)
    simp [hne]

/-- The components that are started get in line in their order. -/
theorem launch (hs : Lineup p k s) (hfresh : ∀ i, s.isFresh i = false)
    (hidle : ∀ i, s.slot? i = some .pending → s.turns.filter (·.place? = some i) = []) (free : Nat) :
    Lineup p k (launch free s) := by
  have hpending {i : Nat} (hi : i ∈ s.launchable free) : s.slot? i = some .pending := by
    obtain ⟨slot, hslot, hpending⟩ := State.mem_placesWith.1 (List.mem_of_mem_take hi)
    cases slot with
    | pending => exact hslot
    | running | settled => cases hpending
  have hfresh' (i : Nat) : (Run.launch free s).isFresh i = decide (i ∈ s.launchable free) := by
    rw [State.isFresh, launch_slot?]
    split
    · next hi => simpa [Slot.isFresh] using hi
    · next hi =>
      rw [decide_eq_false hi]
      exact hfresh i
  have hlength : (Run.launch free s).places.length = s.places.length := by
    simpa using congrArg List.length (launch_components free s)
  refine ⟨?_, fun hwaiting i hi ↦ ?_, ?_⟩
  · rw [State.told, launch_eq]
    exact hs.begun
  · rw [launch_eq] at hwaiting
    rw [hs.unbegun hwaiting i hi, State.any_isUnbegun, State.any_isUnbegun, hfresh', hfresh,
      launch_slot?]
    by_cases hmem : i ∈ s.launchable free
    · simp [hmem, hpending hmem]
    · simp [hmem]
  · have hplaces : (Run.launch free s).placesWith Slot.isFresh = s.launchable free := by
      rw [State.placesWith, hlength]
      refine (List.filter_congr fun i _ ↦ hfresh' i).trans (filter_mem_of_sublist ?_ List.nodup_range)
      exact (List.take_sublist _ _).trans List.filter_sublist
    have hold : s.turns.filter (Run.launch free s).begins = [] := by
      refine List.filter_eq_nil_iff.2 fun t ht hbegins ↦ ?_
      cases t with
      | work i =>
        have hmem : i ∈ s.launchable free := by
          simpa [State.begins, hfresh'] using hbegins
        have hnone := hidle i (hpending hmem)
        exact List.filter_eq_nil_iff.1 hnone _ ht (by simp)
      | expire | ring | cancel | watch | notice | coordinate => cases hbegins
    have hnew : ((s.launchable free).map Turn.work).filter (Run.launch free s).begins =
        (s.launchable free).map .work := by
      refine List.filter_eq_self.2 fun t ht ↦ ?_
      obtain ⟨i, hi, rfl⟩ := List.mem_map.1 ht
      simpa [State.begins, hfresh'] using hi
    rw [launch_turns, List.filter_append, hold, hnew, hplaces, List.nil_append]

/-- A run that waits for nothing to begin. -/
theorem of_not_waiting (hcontrol : Control s) (hbegun : s.told Event.isFirst = p.components.take k)
    (hwaiting : s.coordinator.isWaiting = false) : Lineup p k s := by
  refine of_not_fresh hbegun (fun h ↦ by cases hwaiting.symm.trans h) fun i ↦ ?_
  have hcontrolled := hcontrol.controlled
  cases hco : s.coordinator with
  | waiting woken =>
    rw [hco] at hwaiting
    cases hwaiting
  | draining left cause =>
    rw [State.Controlled, hco] at hcontrolled
    exact hcontrolled.fresh i
  | done abort => exact hcontrol.fresh_of_isDone (by simp [State.isDone, hco]) i

theorem collected (hs : Lineup p k (s.before .coordinate)) (hfresh : ∀ i, s.isFresh i = false) :
    Lineup p k (s.collected p.setup) := by
  have hslot (i : Nat) (q : Slot Rehearsal.Invocation → Bool) (hq : ∀ slot, q slot.settle = q slot) :
      ((s.collected p.setup).slot? i).any q = (s.slot? i).any q :=
    collected_any hq p.setup s i
  have hcollected := Coordinated.collected p.setup s
  have hcoordinator : (s.collected p.setup).coordinator = s.coordinator := by
    obtain ⟨new, hnew, -⟩ := s.collected_eq p.setup
    rw [hnew]
  refine of_not_fresh ((hcollected.told fun e he ↦ by simp [Event.isFirst, he]).trans hs.begun)
    (fun hwaiting i hi ↦ ?_) fun i ↦ ?_
  · rw [hslot]
    · exact hs.unbegun (hcoordinator ▸ hwaiting) i hi
    · rintro (_ | ⟨_, _, _, _, _ | _ | _ | _ | _⟩ | _) <;> rfl
  · rw [State.isFresh, hslot i _ Slot.isFresh_settle]
    exact hfresh i

/-- Free places are given to the next components in line. -/
theorem fill (hs : Lineup p k s) (hcontrol : Control (fill p.setup s))
    (hwaiting : s.coordinator.isWaiting = true) (hfresh : ∀ i, s.isFresh i = false)
    (hidle : ∀ i, s.slot? i = some .pending → s.turns.filter (·.place? = some i) = []) :
    Lineup p k (fill p.setup s) := by
  have hfilled : Lineup p k (s.filled p.setup) := by
    rw [State.filled]
    split
    · exact hs
    · exact hs.launch hfresh hidle _
  have hcoordinator : (s.filled p.setup).coordinator.isWaiting = true := by
    rw [State.filled]
    split
    · exact hwaiting
    · rw [launch_eq]
      exact hwaiting
  by_cases hzero : (s.filled p.setup).runningCount = 0
  · rw [fill_eq, if_pos hzero] at hcontrol ⊢
    obtain ⟨new, heq, -⟩ := complete_eq p.setup_isQuiet (s.filled p.setup)
    have hcompleted := Coordinated.complete p.setup_isQuiet (s.filled p.setup)
    refine of_not_waiting hcontrol
      ((hcompleted.told fun e he ↦ by simp [Event.isFirst, he]).trans hfilled.begun) ?_
    rw [heq]
    rfl
  · rw [fill_eq, if_neg hzero]
    exact ⟨hfilled.begun, fun _ ↦ hfilled.unbegun hcoordinator, hfilled.turns⟩

theorem coordinate (sound : p.Sound) (hs : Lineup p k (s.before .coordinate))
    (hcontrol : Control (s.before .coordinate)) (hplay : Play p lots s) (hdone : s.isDone = false)
    (h : Coordinates p s s') (hcontrol' : Control s') : Lineup p k s' := by
  have hfresh := (hcontrol.ready hdone).fresh
  have hbegun : s'.told Event.isFirst = p.components.take k :=
    (h.coordinated.told fun e he ↦ by simp [Event.isFirst, he]).trans hs.begun
  have hended {s'' : ScriptState} (heq : s' = concludeDrain p.setup none s'') :
      s'.coordinator.isWaiting = false := by
    obtain ⟨new, hnew, -⟩ := concludeDrain_eq_none p.setup_isQuiet s''
    rw [heq, hnew]
    rfl
  cases h with
  | fills waiting cancelled abort eq =>
    subst eq
    refine (hs.collected hfresh).fill hcontrol' ?_ (fun i ↦ ?_) fun i hi ↦
      ((hplay.going waiting).collected sound).turns_of_pending hi
    · obtain ⟨new, hnew, -⟩ := s.collected_eq p.setup
      rw [hnew]
      exact waiting
    · exact (collected_any Slot.isFresh_settle p.setup s i).trans (hfresh i)
  | drains line waiting cancelled abort eq =>
    refine of_not_waiting hcontrol' hbegun ?_
    rw [eq, drain_eq]
    rfl
  | ends line waiting cancelled abort idle eq => exact of_not_waiting hcontrol' hbegun (hended eq)
  | drained draining idle eq => exact of_not_waiting hcontrol' hbegun (hended eq)

/-! ### Steps -/

theorem step (sound : p.Sound) (hcontrol : Control s) (hplay : Play p lots s)
    (hdone : s.isDone = false) (hrecorded : Recorded p s) (hs : Lineup p k s) :
    ∃ k, Lineup p k (step p.setup s) := by
  obtain ⟨stand, hscene⟩ := hplay.scene
  have hrecorded' (rest : List Turn) : Recorded p { s with queue := rest } :=
    hrecorded.change fun _ _ _ h ↦ h.congr rfl rfl rfl
  have hcontrol' := hcontrol.step p.setup_isQuiet hdone
  cases hplay.stepped sound hcontrol hdone with
  | advances queue eq =>
    rw [eq]
    exact ⟨k, hs.advance hplay queue⟩
  | turns t i rest queue place eq =>
    rw [eq]
    rw [State.eq_before queue] at hs hplay
    cases hi : s.isFresh i with
    | false =>
      exact ⟨k, hs.turned sound hplay (by exact hscene.components) (hrecorded' rest) place (by exact hi)⟩
    | true =>
      -- what is about to begin waits for its first turn alone
      obtain ⟨-, -, c, τ, -, -, hcourse⟩ := hplay.fresh (s := State.before t _) (by exact hi)
      have hturns := (hcourse.of_fresh (by exact hi)).1
      rw [State.turns_before, List.filter_cons_of_pos (by simpa using place),
        List.cons_eq_cons] at hturns
      obtain rfl := hturns.1
      exact ⟨k + 1, hs.begins sound hplay (hrecorded' rest) (by exact hi)⟩
  | tells t rest queue place ne eq =>
    rw [eq]
    rw [State.eq_before queue] at hs
    exact ⟨k, hs.told (by exact hdone) place ne⟩
  | coordinates rest queue coordinates =>
    have hbefore := State.eq_before queue
    rw [hbefore] at hs hcontrol hplay
    exact ⟨k, hs.coordinate sound hcontrol (hplay.of_before rfl) (by exact hdone) coordinates hcontrol'⟩

theorem steps (sound : p.Sound) (hcontrol : Control s) (hplay : Play p lots s)
    (hrecorded : Recorded p s) (hs : Lineup p k s) (n : Nat) : ∃ k, Lineup p k (steps p.setup n s) :=
  (Play.steps_keep (P := fun s ↦ Recorded p s ∧ ∃ k, Lineup p k s) sound
    (fun hcontrol hplay hdone ⟨hrecorded, _, hs⟩ ↦
      ⟨hrecorded.step sound hcontrol hplay hdone, hs.step sound hcontrol hplay hdone hrecorded⟩)
    hcontrol hplay ⟨hrecorded, k, hs⟩ n).2

theorem begin (p : Production) (cancellation : Cancellation) (now : Float)
    (shared : Rehearsal.Shared) :
    Lineup p 0 (begin p.setup cancellation now shared p.components) := by
  have hslot {i : Nat} (hi : i < p.components.length) :
      (State.opening p.setup cancellation now shared p.components).slot? i = some .pending := by
    simp [State.opening, State.slot?, hi]
  have hfresh (i : Nat) :
      (State.opening p.setup cancellation now shared p.components).isFresh i = false := by
    rw [State.isFresh, Option.any_eq_false]
    intro slot h
    obtain ⟨c, hc⟩ := State.slot?_eq_some.1 h
    obtain ⟨d, -, hd⟩ := List.mem_map.1 (List.mem_of_getElem? hc)
    cases hd
    rfl
  have hopening : Lineup p 0 (.opening p.setup cancellation now shared p.components) := by
    refine of_not_fresh rfl (fun _ i hi ↦ ?_) hfresh
    rw [hslot hi]
    simp [Slot.isUnbegun, Slot.isPending]
  exact hopening.fill (.begin p.setup_isQuiet cancellation now shared p.components) rfl hfresh
    fun _ _ ↦ rfl

end Lineup

/-! ## Calls -/

/-- The runner is called once for each attempt that is told of, in the same order. -/
def Announced (before : Rehearsal.Shared) (s : ScriptState) : Prop :=
  s.shared.calls.map (·.component) = before.calls.map (·.component) ++ s.told Event.isStart

namespace Announced

variable {before : Rehearsal.Shared}

theorem change (hs : Announced before s) (hshared : s'.shared = s.shared)
    (htold : s'.told Event.isStart = s.told Event.isStart) : Announced before s' := by
  rw [Announced, hshared, htold]
  exact hs

theorem turned (sound : p.Sound) (hs : Announced before s) (hplay : Play p lots (s.before t))
    (hcomponents : s.places.map (·.component) = p.components) (hrecorded : Recorded p s)
    (ht : t.place? = some i) : Announced before (handle p.setup t s) := by
  cases hactive : s.isActive i with
  | false => rwa [handle_inactive ht hactive]
  | true =>
    obtain ⟨slot, hslot, -⟩ := (Option.any_eq_true _ _).1 hactive
    obtain ⟨c, hplace⟩ := State.slot?_eq_some.1 hslot
    have hc : p.components[i]? = some c := by
      rw [← hcomponents, List.getElem?_map, hplace]
      rfl
    obtain ⟨d, hd, hinvoked⟩ := hplay.handle_invoked ht
    obtain rfl : c = d := hd _ hplace
    obtain ⟨m, n, hcalls, hcalls', htold, -⟩ := hrecorded.told_turned sound hcomponents hc ht
    change s.shared.count c = _ at hcalls
    change (handle p.setup t s).shared.count c = _ at hcalls'
    rw [Announced, htold, ← List.append_assoc, ← show _ = _ from hs]
    obtain hsame | ⟨-, hone⟩ := hinvoked.calls
    · rw [Rehearsal.Shared.count, hsame, ← Rehearsal.Shared.count] at hcalls'
      obtain rfl : m = n := by omega
      rw [hsame, Nat.sub_self, List.replicate_zero, List.append_nil]
    · rw [Rehearsal.Shared.count, hone, List.countP_append, ← Rehearsal.Shared.count,
        List.countP_singleton, decide_eq_true rfl, if_pos rfl] at hcalls'
      obtain rfl : n = m + 1 := by omega
      rw [hone, Nat.add_sub_cancel_left, List.map_append]
      rfl

theorem step (sound : p.Sound) (hcontrol : Control s) (hplay : Play p lots s)
    (hdone : s.isDone = false) (hrecorded : Recorded p s) (hs : Announced before s) :
    Announced before (step p.setup s) := by
  obtain ⟨stand, hscene⟩ := hplay.scene
  have hrecorded' (rest : List Turn) : Recorded p { s with queue := rest } :=
    hrecorded.change fun _ _ _ h ↦ h.congr rfl rfl rfl
  cases hplay.stepped sound hcontrol hdone with
  | advances queue eq =>
    rw [eq]
    exact hs.change rfl rfl
  | turns t i rest queue place eq =>
    rw [eq]
    rw [State.eq_before queue] at hplay
    exact turned sound (s := { s with queue := rest }) (hs.change rfl rfl) hplay
      (by exact hscene.components) (hrecorded' rest) place
  | tells t rest queue place ne eq =>
    have htold := told_of_place_none p.setup place ne { s with queue := rest }
    rw [eq]
    refine hs.change htold.shared ?_
    rw [State.told, htold.journal, State.told]
  | coordinates rest queue coordinates =>
    have hcoordinated := coordinates.coordinated
    exact hs.change hcoordinated.shared (hcoordinated.told fun e he ↦ by simp [Event.isStart, he])

theorem steps (sound : p.Sound) (hcontrol : Control s) (hplay : Play p lots s)
    (hrecorded : Recorded p s) (hs : Announced before s) (n : Nat) :
    Announced before (steps p.setup n s) :=
  (Play.steps_keep (P := fun s ↦ Recorded p s ∧ Announced before s) sound
    (fun hcontrol hplay hdone ⟨hrecorded, hs⟩ ↦
      ⟨hrecorded.step sound hcontrol hplay hdone, hs.step sound hcontrol hplay hdone hrecorded⟩)
    hcontrol hplay ⟨hrecorded, hs⟩ n).2

theorem begin (p : Production) (cancellation : Cancellation) (now : Float) :
    Announced before (begin p.setup cancellation now before p.components) := by
  have hcoordinated := Coordinated.fill p.setup_isQuiet
    (.opening p.setup cancellation now before p.components)
  rw [begin_eq, Announced, hcoordinated.shared,
    hcoordinated.told fun e he ↦ by simp [Event.isStart, he]]
  exact (List.append_nil _).symm

end Announced

/-! ## Every state of a run -/

section Reachable

variable {registry : Registry} {components : List String} {script : Script} {policy : Policy}
  {cancellation : Cancellation} {now : Float}

/-- A run never works on more components than it may, and on fewer only when none is left to be
started; components begin in the order of the registry. -/
theorem steps_fill_places (shared : Rehearsal.Shared) (hlist : registry.list = .ok components)
    (hparallelism : 1 ≤ policy.parallelism) (orderly : script.Orderly) (hnow : IsInstant now)
    (hdelays : ∀ delay ∈ cancellation.delays, 0 ≤ delay) (n : Nat) :
    let s := steps (script.setup policy) n
      (begin (script.setup policy) cancellation now shared components)
    s.shared.active = shared.active + s.invocationCount ∧
      (s.invocationCount : Int) ≤ policy.parallelism ∧
      s.shared.peak ≤ max shared.peak (shared.active + policy.parallelism.toNat) ∧
      (s.coordinator.isWaiting = true → s.halted = false → s.cancelled = false →
        (∀ i, s.slot? i ≠ some .pending) ∨ (s.runningCount : Int) = policy.parallelism) ∧
      (s.coordinator.isWaiting = true → s.turns = [] → s.invocationCount = s.runningCount) ∧
      s.shared.calls.map (·.component) =
        shared.calls.map (·.component) ++ s.told Event.isStart ∧
      ∃ k, s.told Event.isFirst = components.take k := by
  have sound := Production.sound_of shared hlist orderly hparallelism
  let p := Production.of script policy shared components
  obtain ⟨lots, hplay⟩ := begin_play sound (fun _ ↦ rfl) hnow hdelays
  have hcontrol : Control (begin p.setup cancellation now shared p.components) :=
    .begin p.setup_isQuiet _ _ _ _
  have hrecorded := Recorded.begin sound (fun _ ↦ rfl) cancellation now
  have hcapacity := (Capacity.begin p shared cancellation now).steps sound hcontrol hplay n
  have hannounced := (Announced.begin p cancellation now).steps sound hcontrol hplay hrecorded n
  obtain ⟨k, hlineup⟩ := (Lineup.begin p cancellation now shared).steps sound hcontrol hplay hrecorded n
  have hlimit : (p.limit : Int) = policy.parallelism :=
    Int.toNat_of_nonneg (Int.le_trans (by decide) hparallelism)
  refine ⟨hcapacity.active, ?_, hcapacity.peak, fun hwaiting hhalted hcancelled ↦ ?_,
    Capacity.invocationCount_eq (hcontrol.steps p.setup_isQuiet n), hannounced, k, hlineup.begun⟩
  · rw [← hlimit]
    exact Int.ofNat_le.2 ((invocationCount_le_runningCount _).trans hcapacity.bound)
  · rw [← hlimit]
    exact (hcapacity.filled hwaiting hhalted hcancelled).imp_right (congrArg _)

theorem steps_fill_places_failing :
    (⟨["alpha", "beta"]⟩ : Registry).list = .ok ["alpha", "beta"] ∧ ∀ n,
      let s := steps (Script.failing.setup {}) n
        (begin (Script.failing.setup {}) (.after [1.5]) 0.0 {} ["alpha", "beta"])
      (s.invocationCount : Int) ≤ 1 ∧ ∃ k, s.told Event.isFirst = ["alpha", "beta"].take k :=
  have hlist : (⟨["alpha", "beta"]⟩ : Registry).list = .ok ["alpha", "beta"] := by decide +kernel
  have hparallelism : 1 ≤ ({} : Policy).parallelism := by decide
  have hnow : IsInstant 0.0 := by decide +kernel
  have hdelays : ∀ delay ∈ (Cancellation.after [1.5]).delays, 0 ≤ delay := by decide +kernel
  ⟨hlist, fun n ↦
    have ⟨_, hbound, _, _, _, _, horder⟩ :=
      steps_fill_places {} hlist hparallelism Script.failing_orderly hnow hdelays n
    ⟨hbound, horder⟩⟩

end Reachable

end Run

end Testbed

import Testbed.Proofs.Run.Completeness
import Testbed.Proofs.Run.Invocations
import Testbed.Proofs.Run.Record

/-!
# Streams of events

The events of a run agree with its report: what is told of a component is its attempts, one after the
other, and then its outcome.  When components are tested one at a time, they are told of one after the
other too, in the order of the registry.
-/

namespace Testbed

open Run Clock

namespace Run

/-! ## Blocks of a list -/

section Lists

variable {α β : Type} [DecidableEq β] {f : α → β}

theorem filter_append_filter_not {l : List α} {q : α → Bool}
    (h : l.Pairwise fun a b ↦ q b = true → q a = true) : l.filter q ++ l.filter (!q ·) = l := by
  induction l with
  | nil => rfl
  | cons a l ih =>
    obtain ⟨ha, hl⟩ := List.pairwise_cons.1 h
    cases hq : q a with
    | true => simp [hq, ih hl]
    | false =>
      have hnone : ∀ b ∈ l, q b = false := fun b hb ↦ by
        by_contra hb'
        rw [ha b hb (by simpa using hb')] at hq
        cases hq
      rw [List.filter_cons_of_neg (by simp [hq]), List.filter_cons_of_pos (by simp [hq]),
        List.filter_eq_nil_iff.2 (by simpa using hnone), List.filter_eq_self.2 (by simpa using hnone),
        List.nil_append]

/-- A list whose elements are sorted by their keys is made of one block per key. -/
theorem eq_flatMap_filter {keys : List β} (hnodup : keys.Nodup) {l : List α}
    (hmem : ∀ a ∈ l, f a ∈ keys)
    (hsorted : l.Pairwise fun a b ↦ keys.idxOf (f a) ≤ keys.idxOf (f b)) :
    l = keys.flatMap fun k ↦ l.filter (f · = k) := by
  induction keys generalizing l with
  | nil =>
    cases l with
    | nil => rfl
    | cons a l => cases hmem a List.mem_cons_self
  | cons k keys ih =>
    obtain ⟨hk, hnodup⟩ := List.nodup_cons.1 hnodup
    have hfirst : l.Pairwise fun a b ↦ decide (f b = k) = true → decide (f a = k) = true := by
      refine hsorted.imp fun {a b} hab hb ↦ ?_
      by_contra ha
      rw [decide_eq_true_eq] at ha hb
      rw [hb, List.idxOf_cons_self, List.idxOf_cons_ne _ (Ne.symm ha)] at hab
      omega
    have hrest {a : α} (ha : a ∈ l.filter (fun a ↦ !decide (f a = k))) : k ≠ f a := by
      rintro rfl
      simp at ha
    have hblocks := ih hnodup
      (fun a ha ↦ (List.mem_cons.1 (hmem a (List.mem_filter.1 ha).1)).resolve_left (hrest ha).symm)
      ((hsorted.filter (fun a ↦ !decide (f a = k))).imp_of_mem fun {a b} ha hb hab ↦ by
        rw [List.idxOf_cons_ne _ (hrest ha), List.idxOf_cons_ne _ (hrest hb)] at hab
        omega)
    have hblock {k' : β} (hk' : k' ∈ keys) :
        (l.filter (fun a ↦ !decide (f a = k))).filter (f · = k') = l.filter (f · = k') := by
      rw [List.filter_filter]
      refine List.filter_congr fun a _ ↦ ?_
      by_cases ha : f a = k'
      · have hne : k' ≠ k := fun h ↦ hk (h ▸ hk')
        simp [ha, hne]
      · simp [ha]
    calc
      l = l.filter (f · = k) ++ l.filter (fun a ↦ !decide (f a = k)) := (filter_append_filter_not hfirst).symm
      _ = l.filter (f · = k) ++ keys.flatMap fun k' ↦ l.filter (f · = k') := by
        rw [hblocks, List.flatMap_congr fun k' hk' ↦ hblock hk']
      _ = (k :: keys).flatMap fun k' ↦ l.filter (f · = k') := by rw [List.flatMap_cons]

theorem pairwise_idxOf {keys : List β} (hnodup : keys.Nodup) :
    keys.Pairwise fun k k' ↦ keys.idxOf k ≤ keys.idxOf k' := by
  refine List.pairwise_iff_getElem.2 fun i j hi hj hij ↦ ?_
  rw [hnodup.idxOf_getElem, hnodup.idxOf_getElem]
  exact hij.le

end Lists

/-! ## One at a time -/

variable {p : Production} {lots : Nat → Lot} {s s' : ScriptState} {t : Turn} {i : Nat} {c : String}

theorem State.exists_slot (hi : i < s.places.length) : ∃ slot, s.slot? i = some slot :=
  ⟨_, congrArg (Option.map _) (List.getElem?_eq_getElem hi)⟩

/-- A component is started when those before it are settled. -/
def State.InTurn (s : ScriptState) : Prop :=
  ∀ i j, i < j → j < s.places.length → s.slot? j = some .pending ∨ ∃ o, s.Settles i o

namespace State.InTurn

theorem change (hs : s.InTurn)
    (hcomponents : s'.places.map (·.component) = s.places.map (·.component))
    (hpending : ∀ i, s.slot? i = some .pending → s'.slot? i = some .pending)
    (hsettles : ∀ i o, s.Settles i o → s'.Settles i o) : s'.InTurn := by
  have hlength : s'.places.length = s.places.length := by simpa using congrArg List.length hcomponents
  intro i j hij hj
  exact (hs i j hij (hlength ▸ hj)).imp (hpending j) (Exists.imp (hsettles i))

theorem of_settled (hs : ∀ i < s.places.length, ∃ o, s.Settles i o) : s.InTurn :=
  fun i _ hij hj ↦ .inr (hs i (hij.trans hj))

theorem turned (hs : s.InTurn) (h : Turned i s s') : s'.InTurn :=
  hs.change h.components (fun _ ↦ (h.slot?_iff rfl).2) fun _ _ ↦ h.settles_iff.2

theorem collected (hs : s.InTurn) (habort : s.abort? p.setup = none) :
    (s.collected p.setup).InTurn := by
  refine hs.change (collected_components p.setup s) (fun j hj ↦ ?_) fun j o hj ↦ ?_
  · rw [collected_slot habort, hj]
    rfl
  · exact (collected_settles habort).2 (.inl hj)

theorem drain (hs : s.InTurn) (cause : Option Abort) : (drain cause s).InTurn := by
  have hslot {j : Nat} {slot : Slot Rehearsal.Invocation} (hj : s.slot? j = some slot)
      (hslot : slot.interrupted = slot) : (Run.drain cause s).slot? j = some slot := by
    obtain ⟨c, hc⟩ := State.slot?_eq_some.1 hj
    rw [State.slot?, drain_eq, List.getElem?_map, hc]
    exact congrArg some hslot
  refine hs.change ?_ (fun j hj ↦ hslot hj rfl) fun j o hj ↦ hslot hj rfl
  rw [drain_eq, List.map_map]
  rfl

/-- The next component is started when nothing is underway. -/
theorem launch {free : Nat} (hs : s.InTurn) (hfree : free ≤ 1 - s.runningCount) :
    (launch free s).InTurn := by
  have hlength : (Run.launch free s).places.length = s.places.length := by
    simpa using congrArg List.length (launch_components free s)
  have hsettles {i : Nat} {o : Outcome} (hi : s.Settles i o) : (Run.launch free s).Settles i o := by
    rw [State.Settles, launch_slot?, if_neg]
    · exact hi
    · intro hmem
      obtain ⟨slot, hslot, hpending⟩ := State.mem_placesWith.1 (List.mem_of_mem_take hmem)
      cases hslot.symm.trans hi
      cases hpending
  intro i j hij hj
  rw [hlength] at hj
  by_cases hmem : j ∈ s.launchable free
  · -- `j` is the first place that is pending, and no place is underway
    obtain ⟨hzero, hfirst⟩ : s.runningCount = 0 ∧ s.slot? i ≠ some .pending := by
      have hpos : 0 < free := by
        by_contra h
        rw [State.launchable, show free = 0 by omega] at hmem
        cases hmem
      refine ⟨by omega, fun hi ↦ ?_⟩
      have hi' : i ∈ s.placesWith Slot.isPending := State.mem_placesWith.2 ⟨_, hi, rfl⟩
      have hsorted : (s.placesWith Slot.isPending).Pairwise (· < ·) := List.pairwise_lt_range.filter _
      rw [State.launchable, show free = 1 by omega] at hmem
      cases hplaces : s.placesWith Slot.isPending with
      | nil => simp [hplaces] at hi'
      | cons k rest =>
        rw [hplaces] at hmem hi' hsorted
        obtain rfl : j = k := by simpa using hmem
        obtain rfl | hi' := List.mem_cons.1 hi'
        · omega
        · have := (List.pairwise_cons.1 hsorted).1 i hi'
          omega
    obtain ⟨slot, hslot⟩ := State.exists_slot (hij.trans hj)
    cases slot with
    | pending => exact absurd hslot hfirst
    | running w => cases not_isRunning_of_zero hzero hslot
    | settled o => exact .inr ⟨o, hsettles hslot⟩
  · rw [launch_slot?, if_neg hmem]
    exact (hs i j hij hj).imp_right (Exists.imp fun _ ↦ hsettles)

theorem complete (hzero : s.runningCount = 0) : (complete p.setup s).InTurn := by
  obtain ⟨new, heq, -⟩ := complete_eq p.setup_isQuiet s
  refine of_settled fun i hi ↦ ?_
  rw [heq, List.length_map] at hi
  obtain ⟨slot, hslot⟩ := State.exists_slot hi
  obtain ⟨c, hc⟩ := State.slot?_eq_some.1 hslot
  simp only [State.Settles, State.slot?, heq, List.getElem?_map, hc]
  cases slot with
  | pending => exact ⟨_, rfl⟩
  | running w => cases not_isRunning_of_zero hzero hslot
  | settled o => exact ⟨o, rfl⟩

theorem concludeDrain (s : ScriptState) : (concludeDrain p.setup none s).InTurn := by
  obtain ⟨new, heq, -⟩ := concludeDrain_eq_none p.setup_isQuiet s
  refine of_settled fun i hi ↦ ?_
  rw [heq, List.length_map] at hi
  simp only [State.Settles, State.slot?, heq, List.getElem?_map, List.getElem?_eq_getElem hi]
  rcases s.places[i] with ⟨c, _ | ⟨_, _, _, _, _ | _ | _ | _ | _⟩ | o⟩ <;> exact ⟨_, rfl⟩

end State.InTurn

/-- The place of a component in the order of a run. -/
def Production.place (p : Production) (c : String) : Nat :=
  p.components.idxOf c

theorem Production.Sound.place_eq (sound : p.Sound) (hc : p.components[i]? = some c) :
    p.place c = i := by
  obtain ⟨hi, rfl⟩ := List.getElem?_eq_some_iff.1 hc
  exact sound.nodup.idxOf_getElem i hi

/-- Events that are told of in the order of their components, the last one first. -/
structure Sorted (p : Production) (events : List (Float × Event)) : Prop where
  known : ∀ e ∈ events, e.2.component ∈ p.components
  sorted : events.Pairwise fun later earlier ↦ p.place earlier.2.component ≤ p.place later.2.component

theorem Sorted.append {new old : List (Float × Event)} (hnew : Sorted p new) (hold : Sorted p old)
    (h : ∀ e ∈ new, ∀ e' ∈ old, p.place e'.2.component ≤ p.place e.2.component) :
    Sorted p (new ++ old) where
  known e he := (List.mem_append.1 he).elim (hnew.known e) (hold.known e)
  sorted := List.pairwise_append.2 ⟨hnew.sorted, hold.sorted, h⟩

/-- One at a time, components are told of in their order. -/
structure Sequence (p : Production) (s : ScriptState) : Prop where
  inTurn : s.InTurn
  events : Sorted p (Journal.events s.journal)

namespace Sequence

/-- Nothing was told of the components after one that is not settled. -/
theorem place_le (hs : Sequence p s) (hrecorded : Recorded p s)
    (hcomponents : s.places.map (·.component) = p.components) (hi : ∀ o, ¬ s.Settles i o)
    {e : Float × Event} (he : e ∈ Journal.events s.journal) : p.place e.2.component ≤ i := by
  have hlt := List.idxOf_lt_length_of_mem (hs.events.known e he)
  have hlength : s.places.length = p.components.length := by
    simpa using congrArg List.length hcomponents
  by_contra hle
  obtain hpending | ⟨o, ho⟩ := hs.inTurn i (p.place e.2.component) (by omega) (hlength ▸ hlt)
  · have htold := ((hrecorded _ _ (List.getElem?_idxOf (hs.events.known e he))).of_pending hpending).2
    rw [View.tells, List.map_eq_nil_iff] at htold
    exact List.filter_eq_nil_iff.1 htold e he (by simp)
  · exact hi o ho

theorem mem_skips (sound : p.Sound) (hcomponents : s.places.map (·.component) = p.components)
    {q : Slot Rehearsal.Invocation → Bool} {e : Float × Event} (he : e ∈ (s.skips q).reverse) :
    e.2.component ∈ p.components ∧
      ∃ slot, s.slot? (p.place e.2.component) = some slot ∧ q slot = true := by
  obtain ⟨place, hplace, rfl⟩ := List.mem_map.1 (List.mem_reverse.1 he)
  obtain ⟨hmem, hq⟩ := List.mem_filter.1 hplace
  obtain ⟨i, hi⟩ := List.mem_iff_getElem?.1 hmem
  have hc : p.components[i]? = some place.component := by
    rw [← hcomponents, List.getElem?_map, hi]
    rfl
  refine ⟨List.mem_of_getElem? hc, place.slot, ?_, hq⟩
  change s.slot? (p.place place.component) = _
  rw [sound.place_eq hc, State.slot?, hi]
  rfl

/-- Places that are not settled are skipped in their order. -/
theorem sorted_skips (sound : p.Sound) (hcomponents : s.places.map (·.component) = p.components)
    {q : Slot Rehearsal.Invocation → Bool} {events : List (Float × Event)} (hsorted : Sorted p events)
    (h : ∀ i slot, s.slot? i = some slot → q slot = true →
      ∀ e ∈ events, p.place e.2.component ≤ i) : Sorted p ((s.skips q).reverse ++ events) := by
  have hplaces : s.places.Pairwise fun place place' ↦
      p.place place.component ≤ p.place place'.component := by
    have hpairwise := pairwise_idxOf sound.nodup
    rw [← hcomponents, List.pairwise_map, hcomponents] at hpairwise
    exact hpairwise
  refine Sorted.append ⟨fun e he ↦ (mem_skips sound hcomponents he).1, ?_⟩ hsorted fun e he ↦ ?_
  · rw [List.pairwise_reverse, State.skips, List.pairwise_map]
    exact hplaces.filter _
  · obtain ⟨-, slot, hslot, hq⟩ := mem_skips sound hcomponents he
    exact h _ slot hslot hq

/-! ### Turns -/

theorem turned (sound : p.Sound) (hs : Sequence p s) (hrecorded : Recorded p s)
    (hcomponents : s.places.map (·.component) = p.components) (ht : t.place? = some i) :
    Sequence p (handle p.setup t s) := by
  cases hactive : s.isActive i with
  | false =>
    rw [handle_inactive ht hactive]
    exact hs
  | true =>
    refine ⟨hs.inTurn.turned (handle_turned p.setup_isQuiet ht s), ?_⟩
    obtain ⟨slot, hslot, ha⟩ := (Option.any_eq_true _ _).1 hactive
    obtain ⟨c, hplace⟩ := State.slot?_eq_some.1 hslot
    obtain ⟨new, hnew, hc⟩ := handle_events (s := s) p.script p.policy ht
      fun place h ↦ congrArg Place.component (Option.some_inj.1 (h.symm.trans hplace))
    have hplace' : p.components[i]? = some c := by
      rw [← hcomponents, List.getElem?_map, hplace]
      rfl
    have hunsettled (o : Outcome) : ¬ s.Settles i o := fun ho ↦ by
      cases hslot.symm.trans ho
      cases ha
    rw [Production.setup, hnew]
    refine Sorted.append ⟨fun e he ↦ ?_, ?_⟩ hs.events fun e he e' he' ↦ ?_
    · rw [hc e he]
      exact List.mem_of_getElem? hplace'
    · refine List.pairwise_of_forall_mem_list fun e he e' he' ↦ ?_
      rw [hc e he, hc e' he']
    · rw [hc e he, sound.place_eq hplace']
      exact hs.place_le hrecorded hcomponents hunsettled he'

theorem complete (sound : p.Sound) (hs : Sequence p s) (hrecorded : Recorded p s)
    (hcomponents : s.places.map (·.component) = p.components) (hzero : s.runningCount = 0) :
    Sequence p (complete p.setup s) := by
  refine ⟨.complete hzero, ?_⟩
  obtain ⟨new, heq, hevents⟩ := complete_events p.setup_isQuiet s
  rw [heq, Journal.events_append, hevents]
  refine sorted_skips sound hcomponents hs.events fun i slot hslot hpending e he ↦ ?_
  refine hs.place_le hrecorded hcomponents (fun o ho ↦ ?_) he
  cases hslot.symm.trans ho
  cases hpending

theorem concludeDrain (sound : p.Sound) (hs : Sequence p s) (hrecorded : Recorded p s)
    (hcomponents : s.places.map (·.component) = p.components) :
    Sequence p (concludeDrain p.setup none s) := by
  refine ⟨.concludeDrain s, ?_⟩
  obtain ⟨new, heq, hevents⟩ := concludeDrain_events p.setup_isQuiet s
  rw [heq, Journal.events_append, hevents, List.append_assoc]
  have hbefore {i : Nat} {slot : Slot Rehearsal.Invocation} (hslot : s.slot? i = some slot)
      (h : ∀ o, slot ≠ .settled o) : ∀ e ∈ Journal.events s.journal, p.place e.2.component ≤ i :=
    fun e ↦ hs.place_le hrecorded hcomponents fun o ho ↦ h o (Option.some_inj.1 (hslot.symm.trans ho))
  have hleft := sorted_skips (q := Slot.isLeft) sound hcomponents hs.events
    fun i slot hslot hleft ↦ hbefore hslot fun o ho ↦ by simp [ho, Slot.isLeft, Slot.isRunning] at hleft
  refine sorted_skips sound hcomponents hleft fun i slot hslot hpending e he ↦ ?_
  obtain he | he := List.mem_append.1 he
  · -- what was underway comes before what was never started
    obtain ⟨hknown, slot', hslot', hq⟩ := mem_skips sound hcomponents he
    have hlt : p.place e.2.component < s.places.length := by
      have hlength : s.places.length = p.components.length := by
        simpa using congrArg List.length hcomponents
      exact hlength ▸ List.idxOf_lt_length_of_mem hknown
    by_contra hle
    obtain hpending' | ⟨o, ho⟩ := hs.inTurn i _ (Nat.lt_of_not_le hle) hlt
    · cases hpending'.symm.trans hslot'
      cases hq
    · cases hslot.symm.trans ho
      cases hpending
  · exact hbefore hslot (fun o ho ↦ by simp [ho, Slot.isPending] at hpending) e he

/-- Nothing is told. -/
theorem congr (hs : Sequence p s) (hinTurn : s'.InTurn)
    (hevents : Journal.events s'.journal = Journal.events s.journal) : Sequence p s' :=
  ⟨hinTurn, hevents ▸ hs.events⟩

theorem collected (hs : Sequence p s) (habort : s.abort? p.setup = none) :
    Sequence p (s.collected p.setup) := by
  refine hs.congr (hs.inTurn.collected habort) ?_
  obtain ⟨new, hnew, hlog⟩ := s.collected_eq p.setup
  rw [hnew, Journal.events_append, events_log fun e he ↦ (hlog e he).2]
  rfl

theorem note (hs : Sequence p s) (line : LogLine) : Sequence p (s.note (.log line)) :=
  hs.congr hs.inTurn (events_cons _ _)

theorem fill (sound : p.Sound) (hone : p.policy.parallelism ≤ 1) (hs : Sequence p s)
    (hrecorded : Recorded p s) (hcomponents : s.places.map (·.component) = p.components) :
    Sequence p (fill p.setup s) := by
  have hfilled : Recorded p (s.filled p.setup) ∧ Sequence p (s.filled p.setup) := by
    rw [State.filled]
    split
    · exact ⟨hrecorded, hs⟩
    · refine ⟨hrecorded.launch _, hs.congr (hs.inTurn.launch ?_) (by rw [launch_eq])⟩
      change p.policy.parallelism.toNat - _ ≤ _
      omega
  rw [fill_eq]
  split
  · next hzero =>
    exact hfilled.2.complete sound hfilled.1 ((filled_components p.setup s).trans hcomponents) hzero
  · exact ⟨hfilled.2.inTurn, hfilled.2.events⟩

theorem coordinate (sound : p.Sound) (hone : p.policy.parallelism ≤ 1)
    (hcomponents : s.places.map (·.component) = p.components) (h : Coordinates p s s')
    (hrecorded : Recorded p s) (hs : Sequence p s) : Sequence p s' := by
  have hcomponents' := (collected_components p.setup s).trans hcomponents
  cases h with
  | fills waiting cancelled abort eq =>
    rw [eq]
    exact (hs.collected abort).fill sound hone (hrecorded.collected abort) hcomponents'
  | drains line waiting cancelled abort eq =>
    rw [eq]
    exact ((hs.collected abort).note line).congr (((hs.collected abort).note line).inTurn.drain none)
      (by rw [drain_eq])
  | ends line waiting cancelled abort idle eq =>
    rw [eq]
    exact ((hs.collected abort).note line).concludeDrain sound ((hrecorded.collected abort).note line)
      hcomponents'
  | drained draining idle eq =>
    rw [eq]
    exact hs.concludeDrain sound hrecorded hcomponents

theorem step (sound : p.Sound) (hone : p.policy.parallelism ≤ 1) (hcontrol : Control s)
    (hplay : Play p lots s) (hdone : s.isDone = false) (hrecorded : Recorded p s)
    (hs : Sequence p s) : Sequence p (step p.setup s) := by
  obtain ⟨stand, hscene⟩ := hplay.scene
  have hrecorded' (rest : List Turn) : Recorded p { s with queue := rest } :=
    hrecorded.change fun _ _ _ h ↦ h.congr rfl rfl rfl
  have hs' (rest : List Turn) : Sequence p { s with queue := rest } := ⟨hs.inTurn, hs.events⟩
  cases hplay.stepped sound hcontrol hdone with
  | advances queue eq =>
    rw [eq]
    exact ⟨hs.inTurn, hs.events⟩
  | turns t i rest queue place eq =>
    rw [eq]
    exact (hs' rest).turned sound (hrecorded' rest) hscene.components place
  | tells t rest queue place ne eq =>
    rw [eq]
    have htold := told_of_place_none p.setup place ne { s with queue := rest }
    refine (hs' rest).congr ((hs' rest).inTurn.change ?_ (fun j ↦ ?_) fun j o ↦ ?_) ?_
    · rw [htold.places]
    · rw [State.slot?, State.slot?, htold.places]
      exact id
    · rw [State.Settles, State.Settles, State.slot?, State.slot?, htold.places]
      exact id
    · rw [htold.journal]
  | coordinates rest queue coordinates =>
    exact (hs' rest).coordinate sound hone (by exact hscene.components) coordinates (hrecorded' rest)

theorem steps (sound : p.Sound) (hone : p.policy.parallelism ≤ 1) (hcontrol : Control s)
    (hplay : Play p lots s) (hrecorded : Recorded p s) (hs : Sequence p s) (n : Nat) :
    Sequence p (steps p.setup n s) :=
  (Play.steps_keep (P := fun s ↦ Recorded p s ∧ Sequence p s) sound
    (fun hcontrol hplay hdone hs ↦ ⟨hs.1.step sound hcontrol hplay hdone,
      hs.2.step sound hone hcontrol hplay hdone hs.1⟩) hcontrol hplay ⟨hrecorded, hs⟩ n).2

theorem begin (sound : p.Sound) (hone : p.policy.parallelism ≤ 1) {shared : Rehearsal.Shared}
    (hearlier : ∀ c, p.earlier c = shared.count c) (cancellation : Cancellation) (now : Float) :
    Sequence p (begin p.setup cancellation now shared p.components) := by
  have hopening : Sequence p (.opening p.setup cancellation now shared p.components) := by
    refine ⟨fun i j _ hj ↦ .inl ?_, nofun, .nil⟩
    simp only [State.opening, List.length_map] at hj
    simp [State.opening, State.slot?, hj]
  exact hopening.fill sound hone (.opening hearlier cancellation now)
    (List.map_map.trans (List.map_id _))

end Sequence

/-! ## Whole runs -/

/-- What a run tells of a component, in order. -/
def Ended.stream {σ : Type} (e : Ended σ) (c : String) : List Event :=
  (e.journal.events.filter (·.2.component = c)).map (·.2)

theorem ended_stream (s : ScriptState) (i : Nat) (c : String) :
    s.ended.stream c = (s.view i c).tells.reverse := by
  rw [Ended.stream, State.ended, events_reverse, List.filter_reverse, List.map_reverse]
  rfl

theorem startedEvents_reverse (c : String) (attempts : Nat) :
    (startedEvents c attempts).reverse =
      (List.range' 1 attempts).map fun n ↦ startedEvent c (n : Nat) := by
  induction attempts with
  | zero => rfl
  | succ attempts ih =>
    rw [startedEvents, List.reverse_cons, ih, List.range'_1_concat, List.map_append]
    simp [Nat.add_comm]

/-- The record of a component that has an outcome. -/
theorem Record.agrees {r : Role} {v : View} {o : Outcome} (h : Record r v)
    (hslot : v.slot = some (.settled o)) : o.component = r.component ∧ ∃ (m : Nat) (last : Event),
      v.tells = last :: startedEvents r.component m ∧
        last.phase = .finished ∧ last.status = some o.status ∧
        (o.status ≠ .skipped → o.attempts = m ∧ v.calls = r.earlier + m ∧
          o.duration = .real last.elapsed ∧ o.attempts = last.attempt) ∧
        (o.status = .skipped →
          o.diagnostics = some interruptedCancelled ∧ 1 ≤ m ∨
          (o.diagnostics = some skippedFailFast ∨ o.diagnostics = some skippedCancelled) ∧ m = 0) := by
  cases h with
  | pending slot => cases hslot.symm.trans slot
  | fresh w slot => cases hslot.symm.trans slot
  | waiting w n awaits signals slot => cases hslot.symm.trans slot
  | interrupted w attempts slot => cases hslot.symm.trans slot
  | finished w o' slot => cases hslot.symm.trans slot
  | settled o' slot tested =>
    cases hslot.symm.trans slot
    obtain ⟨m, elapsed, pos, hattempts, hduration, hcalls, htold⟩ := tested.told
    refine ⟨tested.component, m, _, htold, rfl, rfl,
      fun _ ↦ ⟨hattempts, hcalls, hduration, hattempts⟩, fun hskipped ↦ ?_⟩
    have hstatus := tested.status
    rw [hskipped] at hstatus
    simp at hstatus
  | skipped reason m slot omitted =>
    cases hslot.symm.trans slot
    refine ⟨rfl, m, _, omitted.told, rfl, rfl, fun hne ↦ absurd rfl hne, fun _ ↦ ?_⟩
    simpa [Run.skipped] using omitted.reason

/-- One at a time, the events come in blocks. -/
theorem Sequence.flatMap_stream (sound : p.Sound) (hs : Sequence p s) :
    s.ended.journal.events.map (·.2) = p.components.flatMap s.ended.stream := by
  have hblocks : s.ended.journal.events =
      p.components.flatMap fun c ↦ s.ended.journal.events.filter (·.2.component = c) := by
    refine eq_flatMap_filter sound.nodup ?_ ?_ <;> rw [State.ended, events_reverse]
    · exact fun e he ↦ hs.events.known e (List.mem_reverse.1 he)
    · exact List.pairwise_reverse.2 hs.events.sorted
  conv_lhs => rw [hblocks]
  rw [List.map_flatMap]
  rfl

section Execution

variable {registry : Registry} {components : List String} {script : Script} {policy : Policy}
  {cancellation : Cancellation} {now : Float}

/-- What a run tells of a component is its attempts and then its end, in agreement with the report; a
run that tests one component at a time tells of them one after the other. -/
theorem execute_stream_agrees (shared : Rehearsal.Shared) (hlist : registry.list = .ok components)
    (hparallelism : 1 ≤ policy.parallelism) (orderly : script.Orderly) (hnow : IsInstant now)
    (hdelays : ∀ delay ∈ cancellation.delays, 0 ≤ delay) :
    let ended := execute (script.setup policy) cancellation now shared components
    ∃ report : Report, ended.report = .ok report ∧
      report.outcomes.map (·.component) = components ∧
      (∀ o ∈ report.outcomes, ∃ (m : Nat) (last : Event),
        ended.stream o.component =
            ((List.range' 1 m).map fun n ↦ startedEvent o.component n) ++ [last] ∧
          last.phase = .finished ∧ last.status = some o.status ∧
          (o.status ≠ .skipped → o.attempts = m ∧
            ended.shared.count o.component = shared.count o.component + m ∧
            o.duration = .real last.elapsed ∧ o.attempts = last.attempt) ∧
          (o.status = .skipped →
            o.diagnostics = some interruptedCancelled ∧ 1 ≤ m ∨
            (o.diagnostics = some skippedFailFast ∨ o.diagnostics = some skippedCancelled) ∧ m = 0)) ∧
      (policy.parallelism = 1 →
        ended.journal.events.map (·.2) = components.flatMap ended.stream) := by
  have sound := Production.sound_of shared hlist orderly hparallelism
  obtain ⟨lots, hplay⟩ := begin_play sound (fun _ ↦ rfl) hnow hdelays
  obtain ⟨_, hclosed, hreport⟩ := final_closed shared hlist hparallelism orderly hnow hdelays
  have hcontrol : Control (begin (script.setup policy) cancellation now shared components) :=
    .begin (Script.setup_isQuiet _ _) _ _ _ _
  have hbegin := Recorded.begin sound (fun _ ↦ rfl) cancellation now
  have hrecorded := hbegin.steps sound hcontrol hplay
    (turnBound (script.setup policy) cancellation components)
  refine ⟨_, hreport, hclosed.outcomes_components sound, fun o ho ↦ ?_, fun hone ↦ ?_⟩
  · obtain ⟨i, hi⟩ := List.mem_iff_getElem?.1 ho
    obtain ⟨c, hc⟩ := hclosed.exists_component hi
    obtain ⟨hcomponent, m, last, htold, hphase, hstatus, htested, hskipped⟩ :=
      (hrecorded i c hc).agrees (hclosed.outcomes_getElem?.1 hi)
    rw [show o.component = c from hcomponent]
    refine ⟨m, last, ?_, hphase, hstatus, htested, hskipped⟩
    rw [← startedEvents_reverse, ← List.reverse_cons]
    exact (ended_stream _ i c).trans (congrArg List.reverse htold)
  · exact ((Sequence.begin sound hone.le (fun _ ↦ rfl) cancellation now).steps sound hone.le hcontrol
      hplay hbegin _).flatMap_stream sound

theorem execute_stream_agrees_failing :
    (⟨["alpha", "beta"]⟩ : Registry).list = .ok ["alpha", "beta"] ∧
      (execute (Script.failing.setup {}) (.after [1.5]) 0.0 {} ["alpha", "beta"]).journal.events.map
          (·.2) =
        ["alpha", "beta"].flatMap
          (execute (Script.failing.setup {}) (.after [1.5]) 0.0 {} ["alpha", "beta"]).stream :=
  have hlist : (⟨["alpha", "beta"]⟩ : Registry).list = .ok ["alpha", "beta"] := by decide +kernel
  have hparallelism : 1 ≤ ({} : Policy).parallelism := by decide
  have ⟨_, _, _, _, hblocks⟩ := execute_stream_agrees {} hlist hparallelism Script.failing_orderly
    (by decide +kernel) (by decide +kernel)
  ⟨hlist, hblocks rfl⟩

end Execution

end Run

end Testbed

import Testbed.Proofs.Run.Standing

/-!
# What the coordinator changes in a view

Turns that are not about a place change the slot of a place, queue turns about it and tell of skips,
but they leave its timers and the invocations alone.
-/

namespace Testbed.Run

variable {script : Script} {policy : Policy} {s : ScriptState} {i : Nat} {c : String}

/-! ## Journals of skips -/

theorem Skips.events {now : Float} {new : Journal} (h : Skips now new) :
    ∀ e ∈ Journal.events new, ∃ c, e.2 = skipEvent c := by
  intro e he
  obtain ⟨entry, hentry, he⟩ := List.mem_filterMap.1 he
  split at he
  · next event hnote =>
    obtain rfl := Option.some_inj.1 he
    exact (h entry hentry).2 event hnote
  · cases he

theorem events_log {new : Journal} (h : ∀ e ∈ new, ∃ line, e.note = .log line) :
    Journal.events new = [] := by
  refine List.filterMap_eq_nil_iff.2 fun e he ↦ ?_
  obtain ⟨line, hline⟩ := h e he
  simp [hline]

/-! ## Turns of the coordinator -/

theorem slot?_map (s' : ScriptState) {f : String → Slot Rehearsal.Invocation → Slot Rehearsal.Invocation}
    (h : s'.places = s.places.map fun p ↦ { p with slot := f p.component p.slot })
    (hc : ∀ p, s.places[i]? = some p → p.component = c) : s'.slot? i = (s.slot? i).map (f c) := by
  rw [State.slot?, h, List.getElem?_map, State.slot?]
  cases hp : s.places[i]? with
  | none => rfl
  | some p => simp [hc p hp]

theorem view_collected {setup : Setup Rehearsal.Shared Rehearsal.Invocation}
    (h : s.abort? setup = none) :
    (s.collected setup).view i c =
      (s.view i c).changed ((s.view i c).slot.map Slot.settle) [] [] := by
  obtain ⟨new, hnew, hlog⟩ := s.collected_eq setup
  refine View.ext ?_ (collected_slot h i) ?_ ?_ ?_ ?_ ?_
  · rw [hnew]
    rfl
  · rw [hnew]
    rfl
  · rw [hnew]
    exact (List.append_nil _).symm
  · rw [hnew]
    rfl
  · rw [hnew]
    rfl
  · rw [hnew]
    change (Journal.events (new ++ s.journal)).filter _ = _
    rw [Journal.events_append, events_log fun e he ↦ (hlog e he).2]
    rfl

theorem filter_work (places : List Nat) (i : Nat) :
    (places.map Turn.work).filter (·.place? = some i) =
      (places.filter (· = i)).map .work := by
  rw [List.filter_map]
  congr 1
  refine List.filter_congr fun j _ ↦ ?_
  simp

theorem filter_eq_of_nodup {places : List Nat} (h : places.Nodup) (i : Nat) :
    places.filter (· = i) = if i ∈ places then [i] else [] := by
  have hbeq : places.filter (· = i) = places.filter (· == i) := rfl
  rw [hbeq, List.filter_beq, h.count]
  split <;> rfl

theorem view_launch (free : Nat) :
    (launch free s).view i c = if i ∈ s.launchable free
      then (s.view i c).changed (some (.running { started := s.now })) [.work i] []
      else s.view i c := by
  have hnodup : (s.launchable free).Nodup := (s.placesWith_nodup _).sublist (List.take_sublist _ _)
  have hnext : ((launch free s).view i c).next = (s.view i c).next ++
      if i ∈ s.launchable free then [.work i] else [] := by
    rw [launch_eq]
    change List.filter _ (s.next ++ _) = _
    rw [List.filter_append, filter_work, filter_eq_of_nodup hnodup]
    congr 1
    split <;> rfl
  have hrest : ∀ slot next, (launch free s).slot? i = slot → ((launch free s).view i c).next = next →
      (launch free s).view i c = { s.view i c with slot := slot, next := next } := by
    rintro _ _ rfl rfl
    rw [launch_eq]
    rfl
  rw [hrest _ _ (launch_slot? free s i) hnext]
  split
  · rfl
  · rw [List.append_nil]
    rfl

theorem view_skips {places : List (Place Rehearsal.Invocation)} {coordinator : Coordinator}
    {new : Journal} {slot : Option (Slot Rehearsal.Invocation)}
    (hslot : (places[i]?).map (·.slot) = slot) :
    { s with places, coordinator, journal := new ++ s.journal }.view i c =
      (s.view i c).changed slot [] ((Journal.events new).filter (·.2.component = c)) := by
  refine View.ext rfl hslot rfl ?_ rfl rfl ?_
  · exact (List.append_nil _).symm
  · change (Journal.events (new ++ s.journal)).filter _ = _
    rw [Journal.events_append, List.filter_append]
    rfl

theorem view_complete (script : Script) (policy : Policy)
    (hc : ∀ p, s.places[i]? = some p → p.component = c) :
    ∃ skips, (∀ e ∈ skips, ∃ c, e.2 = skipEvent c) ∧
      (complete (script.setup policy) s).view i c = (s.view i c).changed
        ((s.view i c).slot.map (Slot.skip c (skipReason s.cancelled))) [] skips := by
  obtain ⟨new, heq, hskips⟩ := complete_eq (Script.setup_isQuiet script policy) s
  refine ⟨(Journal.events new).filter (·.2.component = c),
    fun e he ↦ hskips.events e (List.mem_filter.1 he).1, ?_⟩
  rw [heq]
  refine view_skips ?_
  have hslot := slot?_map { s with places := s.places.map (Place.skip (skipReason s.cancelled)) }
    (f := fun c ↦ Slot.skip c (skipReason s.cancelled))
    (List.map_congr_left fun p _ ↦ p.skip_eq (skipReason s.cancelled)) hc
  exact hslot

theorem view_concludeDrain (script : Script) (policy : Policy)
    (hc : ∀ p, s.places[i]? = some p → p.component = c) :
    ∃ skips, (∀ e ∈ skips, ∃ c, e.2 = skipEvent c) ∧
      (concludeDrain (script.setup policy) none s).view i c = (s.view i c).changed
        ((s.view i c).slot.map fun slot ↦ (slot.drained c).skip c (skipReason s.cancelled)) []
        skips := by
  obtain ⟨new, heq, hskips⟩ := concludeDrain_eq_none (Script.setup_isQuiet script policy) s
  refine ⟨(Journal.events new).filter (·.2.component = c),
    fun e he ↦ hskips.events e (List.mem_filter.1 he).1, ?_⟩
  rw [heq]
  refine view_skips ?_
  have hslot := slot?_map
    { s with places := s.places.map fun p ↦ p.drained.skip (skipReason s.cancelled) }
    (f := fun c slot ↦ (slot.drained c).skip c (skipReason s.cancelled))
    (List.map_congr_left fun p _ ↦ by rw [Place.skip_eq, Place.drained_eq]) hc
  exact hslot

theorem view_drain (cause : Option Abort) :
    (drain cause s).view i c = (s.view i c).changed ((s.view i c).slot.map Slot.interrupted)
      (if (s.view i c).slot.any Slot.isIdle then [.work i] else []) [] := by
  have hslot : (drain cause s).slot? i = (s.slot? i).map Slot.interrupted := by
    rw [drain_eq, State.slot?, State.slot?, List.getElem?_map, Option.map_map, Option.map_map]
    rfl
  have hmem : i ∈ s.placesWith Slot.isIdle ↔ (s.slot? i).any Slot.isIdle = true := by
    rw [State.mem_placesWith, Option.any_eq_true]
  have hnext : ((drain cause s).view i c).next = (s.view i c).next ++
      if (s.view i c).slot.any Slot.isIdle then [.work i] else [] := by
    have hnotices (n e : Nat) :
        (List.replicate n (Turn.notice e)).filter (·.place? = some i) = [] := by
      rw [List.filter_eq_nil_iff]
      intro t ht
      simp [List.eq_of_mem_replicate ht]
    rw [drain_eq]
    change List.filter _ (s.next ++ _ ++ _) = _
    rw [List.filter_append, List.filter_append, filter_work, hnotices, List.append_nil,
      filter_eq_of_nodup (s.placesWith_nodup _)]
    congr 1
    simp only [hmem]
    change List.map _ (if (s.slot? i).any Slot.isIdle = true then _ else _) =
      if (s.slot? i).any Slot.isIdle = true then _ else _
    split <;> rfl
  refine View.ext ?_ hslot ?_ hnext ?_ ?_ ?_ <;> rw [drain_eq] <;> rfl

/-! ## Other turns about the run -/

/-- A turn that neither is about a place nor that of the coordinator is seen in no view. -/
theorem view_notice_like {t : Turn} (ht : t.place? = none) (hne : t ≠ .coordinate) :
    (handle (script.setup policy) t s).view i c = s.view i c := by
  have h := handle_tells (script.setup policy) ht hne s
  refine View.ext h.now (h.slot? i) ?_ ?_ ?_ ?_ ?_
  · exact congrArg (List.filter _) h.queue
  · obtain hnext | hnext := h.next
    · exact congrArg (List.filter _) hnext
    · simp [State.view, hnext]
  · exact congrArg (List.filter _) h.timers
  · exact congrArg (·.count c) h.shared
  · exact congrArg (fun journal ↦ (Journal.events journal).filter _) h.journal

end Testbed.Run

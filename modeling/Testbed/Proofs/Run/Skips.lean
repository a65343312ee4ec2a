import Testbed.Proofs.Run.Changes

/-!
# Events of skips

When a run ends, the places that were not tested to the end are told of, each by one event and in the
order of the registry.  The lemmas here say exactly which events these are, for the run as a whole and
in the view of each place.
-/

namespace Testbed.Run

variable {σ ι : Type} {setup : Setup σ ι} {i : Nat} {c : String}

/-- The events by which the places with a property are skipped, in order. -/
def State.skips (q : Slot ι → Bool) (s : State σ ι) : List (Float × Event) :=
  (s.places.filter (q ·.slot)).map fun p ↦ (s.now, skipEvent p.component)

/-- The places at which interrupted work left no outcome. -/
def Slot.isLeft (slot : Slot ι) : Bool :=
  slot.isRunning && !slot.kept

theorem filterMap_placesWith (q : Slot ι → Bool) (s : State σ ι) :
    (s.placesWith q).filterMap (s.places[·]?) = s.places.filter (q ·.slot) := by
  have hlist (l : List (Place ι)) :
      ((List.range l.length).filter fun i ↦ (l[i]?.map (·.slot)).any q).filterMap (l[·]?) =
        l.filter (q ·.slot) := by
    induction l using List.reverseRecOn with
    | nil => rfl
    | append_singleton l a ih =>
      rw [List.length_append, List.length_singleton, List.range_succ, List.filter_append,
        List.filterMap_append, List.filter_append, ← ih]
      congr 1
      · have hget {i : Nat} (hi : i ∈ List.range l.length) : (l ++ [a])[i]? = l[i]? :=
          List.getElem?_append_left (List.mem_range.1 hi)
        rw [List.filter_congr fun i hi ↦ by rw [hget hi]]
        exact List.filterMap_congr fun i hi ↦ hget (List.mem_filter.1 hi).1
      · cases hq : q a.slot <;> simp [hq]
  exact hlist s.places

/-- The end of a run, with the events of its skips. -/
theorem complete_events (quiet : setup.IsQuiet) (s : State σ ι) :
    ∃ new, complete setup s = { s with
      places := s.places.map (Place.skip (skipReason s.cancelled))
      coordinator := .done none
      journal := new ++ s.journal } ∧ Journal.events new = (s.skips Slot.isPending).reverse := by
  obtain ⟨new, hnew, -, hevents⟩ := emitSkips_eq quiet (s.placesWith Slot.isPending) s
  rw [filterMap_placesWith] at hevents
  rw [complete, hnew]
  exact ⟨_ :: new, rfl, hevents⟩

/-- The end of a cancelled run, with the events of its skips. -/
theorem concludeDrain_events (quiet : setup.IsQuiet) (s : State σ ι) :
    ∃ new, concludeDrain setup none s = { s with
      places := s.places.map fun p ↦ p.drained.skip (skipReason s.cancelled)
      coordinator := .done none
      journal := new ++ s.journal } ∧
        Journal.events new = (s.skips Slot.isPending).reverse ++ (s.skips Slot.isLeft).reverse := by
  obtain ⟨new, hnew, -, hevents⟩ := emitSkips_eq quiet (s.placesWith Slot.isLeft) s
  obtain ⟨new', hnew', hevents'⟩ := complete_events quiet
    { s with journal := new ++ s.journal, places := s.places.map Place.drained }
  have hpending : State.skips Slot.isPending
      { s with journal := new ++ s.journal, places := s.places.map Place.drained } =
        s.skips Slot.isPending := by
    have hslot (p : Place ι) : p.drained.slot.isPending = p.slot.isPending := by
      rcases p with ⟨_, _ | ⟨_, _, _, _, _ | _ | _ | _ | _⟩ | _⟩ <;> rfl
    have hcomponent (p : Place ι) : p.drained.component = p.component := by rw [Place.drained_eq]
    simp only [State.skips, List.filter_map, List.map_map, Function.comp_def, hslot, hcomponent]
  rw [filterMap_placesWith] at hevents
  refine ⟨new' ++ new, ?_, ?_⟩
  · unfold concludeDrain
    rw [show (s.placesWith fun slot ↦ slot.isRunning && !slot.kept) = s.placesWith Slot.isLeft from rfl,
      hnew]
    dsimp only at hnew' ⊢
    rw [hnew', List.map_map, List.append_assoc]
    rfl
  · rw [Journal.events_append, hevents', hevents, hpending]
    rfl

/-! ## Skips in a view -/

variable {s : ScriptState}

theorem filter_eq_singleton {α β : Type} [DecidableEq β] {l : List α} {f : α → β} {a : α}
    (hnodup : (l.map f).Nodup) (ha : a ∈ l) : l.filter (f · = f a) = [a] := by
  induction l with
  | nil => cases ha
  | cons b l ih =>
    rw [List.map_cons, List.nodup_cons] at hnodup
    obtain rfl | ha := List.mem_cons.1 ha
    · rw [List.filter_cons_of_pos (by simp), List.filter_eq_nil_iff.2]
      exact fun b hb h ↦ hnodup.1 (List.mem_map.2 ⟨b, hb, by simpa using h⟩)
    · rw [List.filter_cons_of_neg, ih hnodup.2 ha]
      simp only [decide_eq_true_eq]
      exact fun h ↦ hnodup.1 (h ▸ List.mem_map_of_mem ha)

/-- A place with the property is skipped once, another one is not. -/
theorem filter_skips (hnodup : (s.places.map (·.component)).Nodup) {slot : Slot Rehearsal.Invocation}
    (hplace : s.places[i]? = some { component := c, slot := slot })
    (q : Slot Rehearsal.Invocation → Bool) :
    (s.skips q).filter (·.2.component = c) = if q slot then [(s.now, skipEvent c)] else [] := by
  have hmem := List.mem_of_getElem? hplace
  have hfilter := filter_eq_singleton (f := (·.component)) hnodup hmem
  rw [State.skips, List.filter_map]
  simp only [Function.comp_def, skipEvent]
  rw [List.filter_comm, hfilter]
  cases hq : q slot <;> simp [hq]

theorem view_complete_eq (script : Script) (policy : Policy)
    (hnodup : (s.places.map (·.component)).Nodup) {slot : Slot Rehearsal.Invocation}
    (hplace : s.places[i]? = some { component := c, slot := slot }) :
    (complete (script.setup policy) s).view i c = (s.view i c).changed
      (some (slot.skip c (skipReason s.cancelled))) []
      (if slot.isPending then [(s.now, skipEvent c)] else []) := by
  obtain ⟨new, heq, hevents⟩ := complete_events (Script.setup_isQuiet script policy) s
  have hslot : ((s.places.map (Place.skip (skipReason s.cancelled)))[i]?).map (·.slot) =
      some (slot.skip c (skipReason s.cancelled)) := by
    rw [List.getElem?_map, hplace, Option.map_some, Option.map_some, Place.skip_eq]
  have hfilter := filter_skips hnodup hplace Slot.isPending
  rw [heq, ← hfilter, view_skips hslot, hevents, List.filter_reverse, hfilter]
  split <;> rfl

theorem view_concludeDrain_eq (script : Script) (policy : Policy)
    (hnodup : (s.places.map (·.component)).Nodup) {slot : Slot Rehearsal.Invocation}
    (hplace : s.places[i]? = some { component := c, slot := slot }) :
    (concludeDrain (script.setup policy) none s).view i c = (s.view i c).changed
      (some ((slot.drained c).skip c (skipReason s.cancelled))) []
      (if slot.isPending || slot.isLeft then [(s.now, skipEvent c)] else []) := by
  obtain ⟨new, heq, hevents⟩ := concludeDrain_events (Script.setup_isQuiet script policy) s
  have hslot :
      ((s.places.map fun p ↦ p.drained.skip (skipReason s.cancelled))[i]?).map (·.slot) =
        some ((slot.drained c).skip c (skipReason s.cancelled)) := by
    rw [List.getElem?_map, hplace, Option.map_some, Option.map_some, Place.skip_eq, Place.drained_eq]
  rw [heq, view_skips hslot, hevents, List.filter_append, List.filter_reverse, List.filter_reverse,
    filter_skips hnodup hplace, filter_skips hnodup hplace]
  rcases slot with _ | _ | _
  · rfl
  · cases Slot.isLeft _ <;> simp [Slot.isPending]
  · rfl

end Testbed.Run

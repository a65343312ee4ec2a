import Testbed.Proofs.Run.Endings
import Testbed.Proofs.Run.Recast

/-!
# Comparing scripted runs

A scripted run and the same run recast show every component in the same view for as long as they take
the same turns.  The lot of a component can be read off its view, so that the lots agree as well.
-/

namespace Testbed.Run

open Clock

/-! ## Lots in views -/

/-- The lot of a component in a run that goes on. -/
def View.lot (v : View) : Lot :=
  match v.slot with
  | some (.running { stage := .fresh, started, .. }) => .started started
  | _ =>
    match v.starts with
    | [] => .untouched
    | instant :: _ => .started instant

theorem Standing.Running.lot_eq {r : Role} {i : Nat} {v : View} {lot : Lot}
    (h : Standing.Running r i v lot) : lot = v.lot := by
  have hlot (hfresh : ∀ w, v.slot = some (.running w) → w.stage ≠ .fresh) :
      v.lot = match v.starts with
        | [] => .untouched
        | instant :: _ => .started instant := by
    unfold View.lot
    split
    · next hslot => exact absurd rfl (hfresh _ hslot)
    · rfl
  have hstarts {starts finishes : List Float} (htold : v.told = (starts, finishes)) :
      v.starts = starts :=
    congrArg Prod.fst htold
  cases lot with
  | untouched =>
    rw [hlot fun w hw ↦ ?_, hstarts h.1.told]
    cases h.2.symm.trans hw
  | started τ =>
    cases h with
    | fresh slot => rw [View.lot, slot]
    | underway attempt start w slot pos instant course pace calls told =>
      obtain ⟨awaits, signals, hstage, -⟩ := pace.stage
      rw [hlot fun w' hw ↦ ?_, hstarts told]
      cases slot.symm.trans hw
      simp [hstage]
    | finished w slot idle past calls told =>
      rw [hlot fun w' hw ↦ ?_, hstarts told]
      cases slot.symm.trans hw
      simp
    | settled o slot outcome idle past calls told =>
      rw [hlot fun w hw ↦ ?_, hstarts told]
      cases slot.symm.trans hw

/-- Runs that show a component in the same view agree on its lot. -/
theorem Going.lot_congr {p p' : Production} {lots lots' : Nat → Lot} {s s' : ScriptState}
    (hs : Going p lots s) (hs' : Going p' lots' s') (hcomponents : p'.components = p.components)
    (hview : ∀ i c, s'.view i c = s.view i c) (i : Nat) : lots' i = lots i := by
  cases hc : p.components[i]? with
  | some c =>
    rw [(hs.standing i c hc).lot_eq, (hs'.standing i c (hcomponents ▸ hc)).lot_eq, hview]
  | none =>
    have hlen := List.getElem?_eq_none_iff.1 hc
    obtain ⟨k, hk, hlots⟩ := hs.started
    obtain ⟨k', hk', hlots'⟩ := hs'.started
    rw [hcomponents] at hk'
    rw [(hlots i).2 (by omega), (hlots' i).2 (by omega)]

theorem Play.waiting {p : Production} {lots : Nat → Lot} {s : ScriptState} (hs : Play p lots s)
    (hcancelled : s.cancelled = false) (hdone : s.isDone = false) :
    Going p lots s ∧ ∃ woken, s.coordinator = .waiting woken := by
  rw [Play] at hs
  split at hs
  · next woken hco => exact ⟨hs, woken, hco⟩
  · rw [hs.2.cancelled] at hcancelled
    cases hcancelled
  · next hco => simp [State.isDone, hco] at hdone

/-! ## Recast scripted runs -/

section Recast

variable {s : ScriptState}

theorem view_recast (cancels : List Float) {past : Journal} (hpast : past.events = []) (i : Nat)
    (c : String) : (s.recast ⟨id, cancels, past⟩).view i c = s.view i c := by
  have htimers : (cancels.map fun due ↦ (⟨due, .cancel⟩ : Timer)).filter
      (fun t ↦ decide (t.turn.place? = some i)) = [] := by
    refine List.filter_eq_nil_iff.2 fun t ht ↦ ?_
    obtain ⟨due, -, rfl⟩ := List.mem_map.1 ht
    simp
  have hevents : Journal.events (s.journal ++ past) = s.journal.events := by
    rw [Journal.events, List.filterMap_append, show past.filterMap _ = [] from hpast, List.append_nil]
    rfl
  refine View.ext rfl rfl rfl rfl ?_ rfl ?_
  · simp only [State.view, State.recast, Recast.timers, List.filter_append, htimers, List.nil_append]
  · simp only [State.view, State.recast, hevents]

/-- The clock moves on to a cancellation that comes before all other timers. -/
theorem nextInstant_recast (hnow : IsInstant s.now) (hdated : Dated s.timers) {due : Float}
    (hdue : IsInstant due) (hle : tick s.now ≤ tick due)
    (hprogress : s.next ≠ [] ∨ ∃ t ∈ s.timers, IsInstant t.due) :
    (s.recast ⟨id, [due], []⟩).nextInstant = if due ≤ s.nextInstant then due else s.nextInstant := by
  have hkeep {x : Float} (hx : IsInstant x) (hx' : tick x ≤ tick due) :
      x = if due ≤ x then due else x := by
    split
    · next h =>
      rw [le_iff_tick hdue hx] at h
      exact tick_injective (by omega)
    · rfl
  have hearliest {first : Float} (h : Clock.earliest (s.timers.map (·.due)) = some first) :
      Clock.earliest (((⟨due, .cancel⟩ : Timer) :: s.timers).map (·.due)) =
        if due < first then some due else some first := by
    rw [List.map_cons, Clock.earliest, h]
  unfold State.nextInstant
  rw [show (s.recast ⟨id, [due], []⟩).next = s.next from rfl,
    show (s.recast ⟨id, [due], []⟩).now = s.now from rfl,
    show (s.recast ⟨id, [due], []⟩).timers = (⟨due, .cancel⟩ : Timer) :: s.timers from rfl]
  split
  · next hnext =>
    obtain ⟨t, ht, hinstant⟩ := hprogress.resolve_left (not_not.2 (by simpa using hnext))
    obtain ⟨first, hfirst⟩ := exists_earliest (List.mem_map_of_mem ht) hinstant
    obtain ⟨-, hinstant', -⟩ := hdated.earliest hfirst
    rw [hearliest hfirst, hfirst]
    simp only [lt_iff_tick hdue hinstant', lt_iff_tick hnow hinstant']
    by_cases hlt : tick due < tick first
    · simp only [if_pos hlt, if_pos (show tick s.now < tick first by omega),
        if_pos ((le_iff_tick hdue hinstant').2 hlt.le), lt_iff_tick hnow hdue]
      split
      · rfl
      · exact tick_injective (by omega)
    · simp only [if_neg hlt, lt_iff_tick hnow hinstant']
      by_cases hnow' : tick s.now < tick first
      · simp only [if_pos hnow']
        exact hkeep hinstant' (by omega)
      · simp only [if_neg hnow']
        exact hkeep hnow hle
  · exact hkeep hnow hle

end Recast

end Testbed.Run

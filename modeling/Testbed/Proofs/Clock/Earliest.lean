import Testbed.Activity
import Testbed.Proofs.Clock.Durations

/-!
# The earliest instant

What is due first among some instants is one of them, and none of them is before it.  Times that
never come are left out, so nothing is due if there are no others.
-/

namespace Testbed.Clock

/-! ## Order -/

theorem not_lt_self {t : Float} (ht : IsInstant t) : ¬t < t := by
  rw [lt_iff_tick ht ht]
  exact Nat.lt_irrefl _

/-- What is after an instant is an instant. -/
theorem isInstant_of_lt {t x : Float} (ht : IsInstant t) (h : t < x) : IsInstant x := by
  apply isInstant_of_not_le ht (not_le_of_lt ht h)
  by_contra hnan
  exact (not_lt_of_isNaN (by simpa using hnan) t).2 h

theorem lt_trans_instant {t x y : Float} (ht : IsInstant t) (htx : t < x) (hxy : x < y) : t < y := by
  have hx := isInstant_of_lt ht htx
  have hy := isInstant_of_lt hx hxy
  rw [lt_iff_tick ht hx] at htx
  rw [lt_iff_tick hx hy] at hxy
  rw [lt_iff_tick ht hy]
  exact htx.trans hxy

/-! ## The earliest of some instants -/

variable {t due : Float} {times : List Float}

theorem earliest_eq_none (h : earliest times = none) : ∀ t ∈ times, t.isNaN = true := by
  induction times with
  | nil => simp
  | cons first times ih =>
    rw [earliest] at h
    split at h
    · next hrest =>
      split at h
      · next hnan => exact List.forall_mem_cons.2 ⟨hnan, ih hrest⟩
      · cases h
    · split at h <;> cases h

theorem exists_earliest (ht : t ∈ times) (hinstant : IsInstant t) : ∃ due, earliest times = some due := by
  rw [← Option.ne_none_iff_exists']
  intro hnone
  exact absurd (earliest_eq_none hnone t ht) (ne_true_of_eq_false hinstant.not_isNaN)

/-- The earliest of some instants is one of them, a number, and no instant among them is before it. -/
theorem earliest_eq_some (h : earliest times = some due) :
    due ∈ times ∧ due.isNaN = false ∧ ∀ t ∈ times, IsInstant t → ¬t < due := by
  induction times generalizing due with
  | nil => cases h
  | cons first times ih =>
    rw [earliest] at h
    split at h
    · next hrest =>
      split at h
      · cases h
      · next hnan =>
        obtain rfl := Option.some_inj.1 h
        refine ⟨List.mem_cons_self, by simpa using hnan, List.forall_mem_cons.2 ⟨not_lt_self, ?_⟩⟩
        intro t ht hinstant
        obtain ⟨later, hlater⟩ := exists_earliest ht hinstant
        cases hrest.symm.trans hlater
    · next later hrest =>
      obtain ⟨hmem, hnan, hleast⟩ := ih hrest
      split at h
      · next hlt =>
        obtain rfl := Option.some_inj.1 h
        refine ⟨List.mem_cons_self, ?_, List.forall_mem_cons.2 ⟨not_lt_self, ?_⟩⟩
        · by_contra hfirst
          exact (not_lt_of_isNaN (by simpa using hfirst) later).1 hlt
        · exact fun t ht hinstant hbefore ↦ hleast t ht hinstant (lt_trans_instant hinstant hbefore hlt)
      · next hlt =>
        obtain rfl := Option.some_inj.1 h
        exact ⟨List.mem_cons_of_mem _ hmem, hnan, List.forall_mem_cons.2 ⟨fun _ ↦ hlt, hleast⟩⟩

end Testbed.Clock

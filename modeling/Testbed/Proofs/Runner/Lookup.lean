import Mathlib.Data.List.Basic
import Testbed.Runner.Catalogue

/-!
# Lookups of runners

A lookup is answered by the first entry of its key.  That entry is loaded and checked, no other one
is loaded, and the entries around it make no difference.  If there is no entry of the key, nothing is
loaded, and the answer names all keys that there are.
-/

namespace Testbed

namespace Published

variable {κ φ : Type} (key : String)

/-- Nothing but a manifest with a configuration model and a factory is usable. -/
theorem usable_eq_ok_iff (p : Published κ φ) (u : Usable κ φ) :
    p.usable key = .ok u ↔
      p = .manifest { settings := .model u.settings, factory := some u.factory } := by
  cases p with
  | other | broken => simp [usable]
  | manifest m =>
    obtain ⟨settings, factory⟩ := m
    obtain ⟨settings', factory'⟩ := u
    cases settings <;> cases factory <;> simp [usable]

/-- What was loaded is never taken for something that is not there. -/
theorem usable_ne_notFound (p : Published κ φ) (k : String) (names : List String) :
    p.usable key ≠ .error (.notFound k names) := by
  cases p with
  | other | broken => simp [usable]
  | manifest m =>
    obtain ⟨settings, factory⟩ := m
    cases settings <;> cases factory <;> simp [usable]

end Published

namespace Catalogue

variable {m : Type → Type} [Monad m] {α κ φ : Type} {key : String}

/-! ## The keys of a catalogue -/

theorem keys_perm (entries : List (String × α)) : (keys entries).Perm (entries.map (·.1)) :=
  List.mergeSort_perm _ _

theorem keys_sorted (entries : List (String × α)) : (keys entries).Pairwise (· ≤ ·) := by
  have htrans (a b c : String) (hab : decide (a ≤ b) = true) (hbc : decide (b ≤ c) = true) :
      decide (a ≤ c) = true := by
    rw [decide_eq_true_iff] at hab hbc ⊢
    exact String.le_trans hab hbc
  have htotal (a b : String) : (decide (a ≤ b) || decide (b ≤ a)) = true := by
    rw [Bool.or_eq_true, decide_eq_true_iff, decide_eq_true_iff]
    exact String.le_total a b
  have hsorted := List.pairwise_mergeSort htrans htotal (entries.map (·.1))
  exact hsorted.imp fun h ↦ of_decide_eq_true h

/-- All keys, as often as they occur and in ascending order, can be listed in one way only. -/
theorem eq_keys_iff {entries : List (String × α)} {names : List String} :
    names = keys entries ↔ names.Pairwise (· ≤ ·) ∧ names.Perm (entries.map (·.1)) := by
  constructor
  · rintro rfl
    exact ⟨keys_sorted entries, keys_perm entries⟩
  · rintro ⟨hsorted, hperm⟩
    apply (hperm.trans (keys_perm entries).symm).eq_of_pairwise ?_ hsorted (keys_sorted entries)
    intro a b _ _ hab hba
    exact String.le_antisymm hab hba

/-! ## The first entry of a key -/

variable {entries before after : List (String × α)} {entry : α}

theorem exists_first (h : ∃ e ∈ entries, e.1 = key) :
    ∃ before entry after, entries = before ++ (key, entry) :: after ∧ ∀ e ∈ before, e.1 ≠ key := by
  obtain ⟨⟨name, entry⟩, hfind⟩ : ∃ e, entries.find? (·.1 = key) = some e := by
    rw [← Option.isSome_iff_exists, List.find?_isSome]
    simpa using h
  obtain ⟨hkey, before, after, heq, hbefore⟩ := List.find?_eq_some_iff_append.1 hfind
  obtain rfl : name = key := by simpa using hkey
  exact ⟨before, entry, after, heq, fun e he ↦ by simpa using hbefore e he⟩

theorem find?_first (h : ∀ e ∈ before, e.1 ≠ key) :
    (before ++ (key, entry) :: after).find? (·.1 = key) = some (key, entry) := by
  rw [List.find?_eq_some_iff_append]
  exact ⟨by simp, before, after, rfl, fun e he ↦ by simpa using h e he⟩

theorem find?_of_absent (h : ∀ e ∈ entries, e.1 ≠ key) : entries.find? (·.1 = key) = none := by
  rw [List.find?_eq_none]
  exact fun e he ↦ by simpa using h e he

/-! ## Searches -/

/-- A search is the loading of the first entry of the key, followed by the check. -/
theorem search_first (load : α → m (Published κ φ)) (h : ∀ e ∈ before, e.1 ≠ key) :
    search load (before ++ (key, entry) :: after) key = (do return (← load entry).usable key) := by
  rw [search, find?_first h]

theorem search_of_absent (load : α → m (Published κ φ)) (h : ∀ e ∈ entries, e.1 ≠ key) :
    search load entries key = pure (.error (.notFound key (keys entries))) := by
  rw [search, find?_of_absent h]

theorem lookup_first {before after : Catalogue κ φ} {p : Published κ φ}
    (h : ∀ e ∈ before, e.1 ≠ key) :
    lookup (before ++ (key, p) :: after) key = p.usable key := by
  rw [lookup, search_first pure h]
  rfl

theorem lookup_of_absent {c : Catalogue κ φ} (h : ∀ e ∈ c, e.1 ≠ key) :
    c.lookup key = .error (.notFound key (keys c)) := by
  rw [lookup, search_of_absent pure h]
  rfl

variable {c : Catalogue κ φ}

theorem lookup_eq_notFound_iff {k : String} {names : List String} :
    c.lookup key = .error (.notFound k names) ↔
      (∀ e ∈ c, e.1 ≠ key) ∧ k = key ∧ names = keys c := by
  by_cases h : ∃ e ∈ c, e.1 = key
  · obtain ⟨before, p, after, rfl, hbefore⟩ := exists_first h
    rw [lookup_first hbefore]
    refine iff_of_false (p.usable_ne_notFound key k names) fun hnot ↦ ?_
    obtain ⟨e, he, hkey⟩ := h
    exact hnot.1 e he hkey
  · have habsent : ∀ e ∈ c, e.1 ≠ key := fun e he hkey ↦ h ⟨e, he, hkey⟩
    rw [lookup_of_absent habsent, Except.error.injEq, LookupError.notFound.injEq,
      eq_comm (a := key), eq_comm (a := keys c)]
    exact (and_iff_right habsent).symm

theorem lookup_eq_ok_iff {u : Usable κ φ} :
    c.lookup key = .ok u ↔ ∃ before after,
      c = before ++
        (key, .manifest { settings := .model u.settings, factory := some u.factory }) :: after ∧
      ∀ e ∈ before, e.1 ≠ key := by
  constructor
  · intro hlookup
    have h : ∃ e ∈ c, e.1 = key := by
      by_contra hnone
      rw [lookup_of_absent fun e he hkey ↦ hnone ⟨e, he, hkey⟩] at hlookup
      cases hlookup
    obtain ⟨before, p, after, rfl, hbefore⟩ := exists_first h
    rw [lookup_first hbefore, Published.usable_eq_ok_iff] at hlookup
    exact ⟨before, after, by rw [hlookup], hbefore⟩
  · rintro ⟨before, after, rfl, hbefore⟩
    rw [lookup_first hbefore, Published.usable_eq_ok_iff]

/-- However entries are loaded, a search loads the first one of its key and no other, and what comes
of it is checked.  So the entries before it may be any that have other keys, and those behind it any
at all.  Without an entry of the key nothing is loaded.  A lookup misses its key exactly if no entry
has it, and then names all keys there are, each as often as it occurs and in ascending order.  It
gives something usable exactly if the first entry of the key is a manifest with a configuration model
and a factory. -/
theorem lookup_touches_first (load : α → m (Published κ φ)) (entries : List (String × α))
    (c : Catalogue κ φ) (key : String) :
    ((∃ e ∈ entries, e.1 = key) → ∃ before entry after,
      entries = before ++ (key, entry) :: after ∧ (∀ e ∈ before, e.1 ≠ key) ∧
      search load entries key = (do return (← load entry).usable key) ∧
      ∀ before' after', (∀ e ∈ before', e.1 ≠ key) →
        search load (before' ++ (key, entry) :: after') key = search load entries key) ∧
    ((∀ e ∈ entries, e.1 ≠ key) →
      search load entries key = pure (.error (.notFound key (keys entries)))) ∧
    (∀ k names, c.lookup key = .error (.notFound k names) ↔ (∀ e ∈ c, e.1 ≠ key) ∧ k = key ∧
      names.Pairwise (· ≤ ·) ∧ names.Perm (c.map (·.1))) ∧
    ∀ u, c.lookup key = .ok u ↔ ∃ before after,
      c = before ++
        (key, .manifest { settings := .model u.settings, factory := some u.factory }) :: after ∧
      ∀ e ∈ before, e.1 ≠ key := by
  refine ⟨?first, search_of_absent load, ?notFound, fun _ ↦ lookup_eq_ok_iff⟩
  case first =>
    intro h
    obtain ⟨before, entry, after, rfl, hbefore⟩ := exists_first h
    refine ⟨before, entry, after, rfl, hbefore, search_first load hbefore, ?_⟩
    intro before' after' hbefore'
    rw [search_first load hbefore, search_first load hbefore']
  case notFound =>
    intro k names
    rw [lookup_eq_notFound_iff, eq_keys_iff]

/-- Of two entries of a key the first one is loaded, though it turns out to be broken. -/
example :
    (search (m := StateM (List Nat)) (fun n ↦ do
        modify (· ++ [n])
        return if n = 2 then .broken ⟨"ImportError", "cannot import", false⟩
          else .manifest (manifestOf .cargo))
      [("cargo", 1), ("nextest", 2), ("nextest", 3)] "nextest").run [] =
      (.error (.broken ⟨"ImportError", "cannot import", false⟩), [2]) := by
  rfl

end Catalogue

end Testbed

import Mathlib.Data.List.Induction
import Mathlib.Data.List.Nodup
import Testbed.Proofs.Text.Blank
import Testbed.Registry

/-!
# Usable registries

The names of a usable registry are distinct, so that a place in it stands for a component.  Of any
other registry it is said what is wrong with it: that it is empty, that a name is blank, or else which
names are repeated, in the order in which they are met again.
-/

namespace Testbed.Registry

/-! ## Distinct names -/

/-- Nothing is found repeated exactly if the names are new and distinct. -/
theorem repeatedFrom_eq_nil {seen found names : List String} :
    repeatedFrom seen found names = [] ↔
      found = [] ∧ names.Nodup ∧ ∀ name ∈ names, name ∉ seen := by
  induction names generalizing seen found with
  | nil => simp [repeatedFrom]
  | cons name rest ih =>
    rw [repeatedFrom, ih]
    by_cases hseen : name ∈ seen
    · have hne : (if seen.contains name && !found.contains name then found ++ [name] else found) = [] →
          found ≠ [] := by
        intro h hfound
        simp [hseen, hfound] at h
      constructor
      · rintro ⟨h, -⟩
        have hfound := hne h
        split at h <;> simp_all
      · rintro ⟨-, -, h⟩
        exact absurd hseen (h name List.mem_cons_self)
    · rw [List.forall_mem_cons]
      simp only [List.contains_eq_mem, hseen, decide_false, Bool.false_and, Bool.false_eq_true, if_false,
        List.nodup_cons, List.mem_cons, not_or]
      constructor
      · rintro ⟨hfound, hrest, h⟩
        exact ⟨hfound, ⟨fun hmem ↦ (h name hmem).1 rfl, hrest⟩, not_false, fun n hn ↦ (h n hn).2⟩
      · rintro ⟨hfound, ⟨hname, hrest⟩, -, h⟩
        exact ⟨hfound, hrest, fun n hn ↦ ⟨fun heq ↦ hname (heq ▸ hn), h n hn⟩⟩

theorem repeated_eq_nil {names : List String} : repeated names = [] ↔ names.Nodup := by
  simp [repeated, repeatedFrom_eq_nil]

theorem nodup_of_list {r : Registry} {names : List String} (h : r.list = .ok names) : names.Nodup := by
  obtain ⟨rfl, -, -, hrepeated⟩ := list_eq_ok_iff.1 h
  exact repeated_eq_nil.1 hrepeated

/-! ## Repeated names -/

variable {names found : List String} {name : String} {i j : Nat}

/-- A name stands at a place for the second time. -/
def IsSecond (names : List String) (i : Nat) (name : String) : Prop :=
  names[i]? = some name ∧ (names.take i).count name = 1

/-- The names that occur at least twice, each once, in the order of their second occurrences. -/
structure AreRepeated (names found : List String) : Prop where
  nodup : found.Nodup
  mem_iff : ∀ name, name ∈ found ↔ 2 ≤ names.count name
  inOrder : found.Pairwise fun a b ↦ ∃ i j, IsSecond names i a ∧ IsSecond names j b ∧ i < j

theorem IsSecond.lt (h : IsSecond names i name) : i < names.length :=
  (List.getElem?_eq_some_iff.1 h.1).1

theorem IsSecond.concat (h : IsSecond names i name) (new : String) : IsSecond (names ++ [new]) i name := by
  rw [IsSecond, List.getElem?_append_left h.lt, List.take_append_of_le_length h.lt.le]
  exact h

theorem isSecond_length (h : names.count name = 1) : IsSecond (names ++ [name]) names.length name := by
  rw [IsSecond, List.getElem?_concat_length, List.take_left' rfl]
  exact ⟨rfl, h⟩

theorem IsSecond.not_lt (h : IsSecond names i name) (h' : IsSecond names j name) : ¬i < j := by
  intro hlt
  have hbefore : (names.take (i + 1)).count name = 2 := by
    rw [List.take_add_one, h.1, List.count_append, h.2]
    simp
  have hsublist := (List.take_sublist_take_left (l := names) (Nat.succ_le_of_lt hlt)).count_le name
  rw [hbefore, h'.2] at hsublist
  omega

theorem IsSecond.unique (h : IsSecond names i name) (h' : IsSecond names j name) : i = j :=
  Nat.le_antisymm (Nat.not_lt.1 (h'.not_lt h)) (Nat.not_lt.1 (h.not_lt h'))

theorem exists_isSecond (h : 2 ≤ names.count name) : ∃ i, IsSecond names i name := by
  induction names using List.reverseRecOn with
  | nil => simp at h
  | append_singleton names new ih =>
    by_cases hbefore : 2 ≤ names.count name
    · obtain ⟨i, hi⟩ := ih hbefore
      exact ⟨i, hi.concat new⟩
    · rw [List.count_append, List.count_singleton] at h
      obtain rfl : new = name := by
        by_contra hne
        rw [if_neg (by simpa using hne)] at h
        omega
      rw [if_pos (by simp)] at h
      exact ⟨names.length, isSecond_length (by omega)⟩

/-- What is repeated before a new name is met, and what is repeated then. -/
theorem AreRepeated.concat (h : AreRepeated names found) (new : String) :
    AreRepeated (names ++ [new])
      (if new ∈ names ∧ new ∉ found then found ++ [new] else found) := by
  have hcount (name : String) :
      (names ++ [new]).count name = names.count name + if new = name then 1 else 0 := by
    rw [List.count_append, List.count_singleton]
    simp
  have hinOrder : found.Pairwise fun a b ↦
      ∃ i j, IsSecond (names ++ [new]) i a ∧ IsSecond (names ++ [new]) j b ∧ i < j :=
    h.inOrder.imp fun ⟨i, j, hi, hj, hlt⟩ ↦ ⟨i, j, hi.concat new, hj.concat new, hlt⟩
  split
  · next hnew =>
    obtain ⟨hmem, hfound⟩ := hnew
    have honce : names.count new = 1 := by
      have := List.count_pos_iff.2 hmem
      have := mt (h.mem_iff new).2 hfound
      omega
    refine ⟨?nodup, ?mem, ?order⟩
    case nodup => exact List.nodup_append.2 ⟨h.nodup, List.nodup_singleton new, by grind⟩
    case mem =>
      intro name
      rw [List.mem_append, List.mem_singleton, h.mem_iff, hcount]
      by_cases hname : new = name
      · subst hname
        simp [honce]
      · simp [hname, Ne.symm hname]
    case order =>
      refine List.pairwise_append.2 ⟨hinOrder, List.pairwise_singleton _ new, ?_⟩
      intro name hname last hlast
      obtain rfl := List.mem_singleton.1 hlast
      obtain ⟨i, hi⟩ := exists_isSecond ((h.mem_iff name).1 hname)
      exact ⟨i, names.length, hi.concat last, isSecond_length honce, hi.lt⟩
  · next hnew =>
    refine ⟨h.nodup, fun name ↦ ?_, hinOrder⟩
    rw [h.mem_iff, hcount]
    by_cases hname : new = name
    · subst hname
      -- the new name has been found already, or occurs for the first time
      have hcases : new ∉ names ∨ 2 ≤ names.count new := by
        rw [← h.mem_iff]
        tauto
      rw [← List.count_eq_zero] at hcases
      simp only [if_true]
      omega
    · simp [hname]

/-- The names found repeated so far, by induction on the names that are still to be met. -/
theorem areRepeated_repeatedFrom {seen : List String} (h : AreRepeated names found)
    (hseen : ∀ name, name ∈ seen ↔ name ∈ names) (rest : List String) :
    AreRepeated (names ++ rest) (repeatedFrom seen found rest) := by
  induction rest generalizing names found seen with
  | nil => simpa [repeatedFrom] using h
  | cons new rest ih =>
    rw [repeatedFrom, List.append_cons]
    apply ih
    · have hif : (seen.contains new && !found.contains new) = true ↔ new ∈ names ∧ new ∉ found := by
        simp [hseen]
      simpa only [hif] using h.concat new
    · intro name
      simp [hseen, or_comm]

theorem areRepeated_repeated (names : List String) : AreRepeated names (repeated names) := by
  have hnil : AreRepeated [] [] := ⟨List.nodup_nil, by simp, List.Pairwise.nil⟩
  exact areRepeated_repeatedFrom hnil (by simp) names

/-- There is only one way to name the repeated names in order. -/
theorem AreRepeated.unique {found' : List String} (h : AreRepeated names found)
    (h' : AreRepeated names found') : found = found' := by
  have hperm : found.Perm found' := by
    rw [List.perm_ext_iff_of_nodup h.nodup h'.nodup]
    intro name
    rw [h.mem_iff, h'.mem_iff]
  apply hperm.eq_of_pairwise ?_ h.inOrder h'.inOrder
  rintro a b - - ⟨i, j, hi, hj, hlt⟩ ⟨j', i', hj', hi', hlt'⟩
  have := hi.unique hi'
  have := hj.unique hj'
  omega

theorem repeated_eq_iff : repeated names = found ↔ AreRepeated names found := by
  constructor
  · rintro rfl
    exact areRepeated_repeated names
  · exact (areRepeated_repeated names).unique

/-! ## What is said of a registry -/

/-- A registry is usable if it has a component, no name that is nothing but blanks, and no name twice.
Of the faults that it has, only one is reported: that it is empty, else a blank name wherever it
stands, else all the names that occur more than once, each once, in the order in which they are met
again. -/
theorem list_exact (r : Registry) :
    (∀ names, r.list = .ok names ↔ names = r.components ∧ r.components ≠ [] ∧
      (∀ name ∈ r.components, Text.trim name.toList ≠ []) ∧ r.components.Nodup) ∧
    (r.list = .error .empty ↔ r.components = []) ∧
    (r.list = .error .blank ↔ ∃ name ∈ r.components, Text.trim name.toList = []) ∧
    ∀ names, r.list = .error (.duplicates names) ↔
      (∀ name ∈ r.components, Text.trim name.toList ≠ []) ∧ names ≠ [] ∧
        AreRepeated r.components names := by
  have hblank : (∃ name ∈ r.components, Text.trim name.toList = []) ↔
      r.components.any Text.isBlankText = true := by
    simp only [List.any_eq_true, Text.isBlankText_iff_trim]
  have hclear : (∀ name ∈ r.components, Text.trim name.toList ≠ []) ↔
      r.components.any Text.isBlankText = false := by
    rw [← Bool.not_eq_true, ← hblank]
    simp
  simp only [hblank, hclear, ← repeated_eq_nil, ← repeated_eq_iff]
  unfold list
  cases r.components with
  | nil => simp [repeated, repeatedFrom]
  | cons first rest =>
    cases (first :: rest).any Text.isBlankText with
    | true => simp
    | false => cases repeated (first :: rest) <;> simp [eq_comm]

/-- The order is that of the second occurrences, not of the first ones. -/
example : list ⟨["b", "a", "a", "c", "b", "a"]⟩ = .error (.duplicates ["a", "b"]) := by decide

end Testbed.Registry

import Testbed.Proofs.Config.Checks
import Testbed.Proofs.Data.Entries

/-!
# Members under names

The keys of a configuration and of a JSON object are texts, no two of which are the same.  Putting
members into such a mapping gives one again, in which each name has the last value that was put under
it.
-/

namespace Testbed.Data

open CommandLine (putAll)
open Validation

/-- A mapping whose keys are texts. -/
def named (members : List (String × Value)) : Entries :=
  members.map fun (name, v) ↦ (.text name, v)

variable {es ms changes : List (String × Value)} {name : String} {v : Value}

theorem named_cons (m : String × Value) (ms : List (String × Value)) :
    named (m :: ms) = (.text m.1, m.2) :: named ms :=
  rfl

theorem named_reverse (ms : List (String × Value)) : named ms.reverse = (named ms).reverse :=
  List.map_reverse

theorem exists_name_of_mem_named {e : Value × Value} (h : e ∈ named ms) : ∃ key, e.1 = .text key := by
  obtain ⟨m, -, rfl⟩ := List.mem_map.1 h
  exact ⟨m.1, rfl⟩

theorem get?_named (ms : List (String × Value)) (name : String) :
    (named ms).get? name = ms.lookup name := by
  induction ms with
  | nil => rfl
  | cons m ms ih =>
    rw [named_cons, Entries.get?_cons, Value.sameKey_text, ih, List.lookup_cons, BEq.comm (a := name)]
    cases hname : m.1 == name with
    | true => rw [if_pos rfl]
    | false => rw [if_neg Bool.false_ne_true]

theorem Distinct.lookup_eq_some_iff (h : Distinct ms) : ms.lookup name = some v ↔ (name, v) ∈ ms := by
  induction ms with
  | nil => simp
  | cons m ms ih =>
    obtain ⟨key, w⟩ := m
    obtain ⟨hnew, hrest⟩ := List.nodup_cons.1 h
    have hmem : (name, v) ∈ ms → name ≠ key := by
      rintro hv rfl
      exact hnew (List.mem_map.2 ⟨_, hv, rfl⟩)
    rw [List.lookup_cons, List.mem_cons, Prod.mk.injEq, ← ih hrest]
    by_cases hname : name = key
    · subst hname
      have hnone : ms.lookup name ≠ some v := fun hv ↦ hmem ((ih hrest).1 hv) rfl
      simp [hnone, eq_comm]
    · have hfalse : (name == key) = false := beq_eq_false_iff_ne.2 hname
      simp [hfalse, hname]

/-- With distinct names the order of the members does not matter for what is found. -/
theorem Distinct.lookup_reverse (h : Distinct ms) (name : String) :
    ms.reverse.lookup name = ms.lookup name := by
  have hreverse : Distinct ms.reverse := by
    rw [Distinct, List.map_reverse]
    exact List.nodup_reverse.2 h
  apply Option.ext
  intro v
  rw [Distinct.lookup_eq_some_iff hreverse, Distinct.lookup_eq_some_iff h, List.mem_reverse]

/-! ## Putting members -/

theorem putEntry_cons_of_ne {m e : String × Value} (h : m.1 ≠ e.1) (ms : List (String × Value)) :
    putEntry (m :: ms) e = m :: putEntry ms e := by
  unfold putEntry
  simp only [List.any_cons, h, decide_false, Bool.false_or, List.map_cons, if_false]
  split <;> rfl

theorem putEntry_cons_of_eq {m e : String × Value} (h : m.1 = e.1) (hdistinct : Distinct (m :: ms)) :
    putEntry (m :: ms) e = e :: ms := by
  have hnew : ∀ m' ∈ ms, m'.1 ≠ e.1 := by
    intro m' hm' heq
    exact (List.nodup_cons.1 hdistinct).1 (List.mem_map.2 ⟨m', hm', heq.trans h.symm⟩)
  unfold putEntry
  simp only [List.any_cons, h, decide_true, Bool.true_or, if_true, List.map_cons, List.cons.injEq,
    true_and]
  conv_rhs => rw [← List.map_id ms]
  apply List.map_congr_left
  intro m' hm'
  exact if_neg (hnew m' hm')

theorem put_named (h : Distinct ms) (name : String) (v : Value) :
    (named ms).put (.text name) v = named (putEntry ms (name, v)) := by
  induction ms with
  | nil => rfl
  | cons m ms ih =>
    rw [named_cons, Entries.put, Value.sameKey_text]
    simp only [beq_iff_eq]
    split
    · next heq =>
      rw [putEntry_cons_of_eq heq h, named_cons, heq]
    · next hne => rw [putEntry_cons_of_ne hne, ih (List.nodup_cons.1 h).2, named_cons]

theorem putAll_named (h : Distinct ms) (changes : List (String × Value)) :
    putAll (named ms) (named changes) = named (changes.foldl putEntry ms) := by
  induction changes generalizing ms with
  | nil => rfl
  | cons m changes ih =>
    calc putAll (named ms) (named (m :: changes))
      _ = putAll ((named ms).put (.text m.1) m.2) (named changes) := rfl
      _ = putAll (named (putEntry ms m)) (named changes) := by rw [put_named h]
      _ = named (changes.foldl putEntry (putEntry ms m)) := ih (h.put m)

/-- Under each name is what was put there, or what was there before. -/
theorem lookup_foldl_putEntry (hms : Distinct ms) (hchanges : Distinct changes) (name : String) :
    (changes.foldl putEntry ms).lookup name = (changes.lookup name).or (ms.lookup name) := by
  calc (changes.foldl putEntry ms).lookup name
    _ = (putAll (named ms) (named changes)).get? name := by rw [putAll_named hms, get?_named]
    _ = (Entries.get? (named changes).reverse name).or ((named ms).get? name) :=
      Entries.get?_putAll (fun _ ↦ exists_name_of_mem_named) _ _
    _ = (Entries.get? (named changes.reverse) name).or ((named ms).get? name) := by
      rw [named_reverse]
    _ = (changes.lookup name).or (ms.lookup name) := by
      rw [get?_named, get?_named, Distinct.lookup_reverse hchanges]

/-! ## Members that are read -/

namespace Json

variable {depth : Nat} {cs rest : List Char}

theorem bind_eq_ok {ε α β : Type} {x : Except ε α} {f : α → Except ε β} {y : β} :
    x >>= f = .ok y ↔ ∃ a, x = .ok a ∧ f a = .ok y := by
  cases x <;> simp [bind, Except.bind]

theorem map_eq_ok {ε α β : Type} {f : α → β} {x : Except ε α} {y : β} :
    x.map f = .ok y ↔ ∃ a, x = .ok a ∧ f a = y := by
  cases x <;> simp [Except.map]

theorem mapError_eq_ok {ε ε' α : Type} {f : ε → ε'} {x : Except ε α} {y : α} :
    x.mapError f = .ok y ↔ x = .ok y := by
  cases x <;> simp [Except.mapError]

/-- The names of the members of an object are texts: by induction on the depth, of which every member
takes some. -/
theorem members_eq_ok {entries : Entries} (h : members depth cs = .ok (entries, rest)) :
    ∃ ms, entries = named ms := by
  induction depth generalizing cs entries rest with
  | zero => cases h
  | succ depth ih =>
    rw [members.eq_def] at h
    dsimp only at h
    split at h
    · obtain ⟨⟨key, afterKey⟩, -, h⟩ := bind_eq_ok.1 h
      dsimp only at h
      split at h
      · obtain ⟨afterColon, -, h⟩ := bind_eq_ok.1 h
        obtain ⟨⟨v, afterValue⟩, -, h⟩ := bind_eq_ok.1 h
        dsimp only at h
        split at h
        · obtain ⟨rfl, -⟩ := Prod.mk.inj (Except.ok.inj h)
          exact ⟨[(String.ofList key, v)], rfl⟩
        · obtain ⟨⟨more, afterMore⟩, hmore, h⟩ := bind_eq_ok.1 h
          obtain ⟨rfl, -⟩ := Prod.mk.inj (Except.ok.inj h)
          obtain ⟨ms, rfl⟩ := ih hmore
          exact ⟨(String.ofList key, v) :: ms, rfl⟩
        · cases h
      · cases h
    · cases h

theorem unsigned_ne_map {negative : Bool} {entries : Entries} :
    unsigned negative cs ≠ .ok (.map entries, rest) := by
  intro h
  unfold unsigned at h
  dsimp only at h
  split at h
  · cases h
  · split at h
    · split at h <;> cases h
    · cases h

/-- Only braces write an object. -/
theorem scalar_ne_map {entries : Entries} : scalar cs ≠ .ok (.map entries, rest) := by
  intro h
  unfold scalar at h
  split at h
  · next result hword =>
    obtain ⟨⟨word, v⟩, hmem, hstrip⟩ := List.exists_of_findSome?_eq_some hword
    obtain ⟨rest', -, rfl⟩ := Option.map_eq_some_iff.1 hstrip
    obtain ⟨rfl, -⟩ := Prod.mk.inj (Except.ok.inj h)
    simp [words] at hmem
  · replace h := mapError_eq_ok.1 h
    split at h <;> exact unsigned_ne_map h

/-- An object that is read has texts for keys, no two of them the same. -/
theorem value_eq_ok_map {entries : Entries} (h : value depth cs = .ok (.map entries, rest)) :
    ∃ ms, Distinct ms ∧ entries = named ms := by
  cases depth with
  | zero => cases h
  | succ depth =>
    rw [value.eq_def] at h
    dsimp only at h
    split at h
    · obtain ⟨⟨s, after⟩, -, h⟩ := map_eq_ok.1 h
      cases h
    · split at h
      · cases h
      · obtain ⟨⟨vs, after⟩, -, h⟩ := map_eq_ok.1 h
        cases h
    · split at h
      · cases h
        exact ⟨[], List.nodup_nil, rfl⟩
      · obtain ⟨⟨es, after⟩, hmembers, h⟩ := map_eq_ok.1 h
        cases h
        obtain ⟨ms, rfl⟩ := members_eq_ok hmembers
        have hnil : Distinct ([] : List (String × Value)) := List.nodup_nil
        exact ⟨ms.foldl putEntry [], Distinct.foldl hnil ms, putAll_named hnil ms⟩
    · exact absurd h scalar_ne_map

/-- The members of an object that a text writes. -/
theorem read_eq_ok_map {text : String} {entries : Entries} (h : read text = .ok (.map entries)) :
    ∃ ms, Distinct ms ∧ entries = named ms := by
  have hdocument : documentOf text.toList = .ok (.map entries) := mapError_eq_ok.1 h
  unfold documentOf at hdocument
  split at hdocument
  · cases hdocument
  · split at hdocument
    · cases hdocument
    · next hvalue =>
      split at hdocument
      · obtain rfl := Except.ok.inj hdocument
        exact value_eq_ok_map hvalue
      · cases hdocument

end Json

end Testbed.Data

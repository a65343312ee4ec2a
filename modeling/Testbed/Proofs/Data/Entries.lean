import Testbed.CommandLine.Overrides

/-!
# Entries under names

What is found under a name after entries were put into a mapping: the last value that was put under
the name, or what was found there before.
-/

namespace Testbed.Data

open CommandLine (putAll)

theorem Value.keyForm_float (x : Float) :
    (Value.float x).keyForm = .float x ∨ ∃ n, (Value.float x).keyForm = .int n := by
  rw [keyForm]
  split
  · next n _ => exact .inr ⟨n, rfl⟩
  · exact .inl rfl

theorem Value.sameKey_text_iff {k : Value} {name : String} :
    k.sameKey (.text name) = true ↔ k = .text name := by
  cases k with
  | text s => simp
  | float x => obtain h | ⟨n, h⟩ := keyForm_float x <;> simp [sameKey, h]
  | null | flag | int | bytes | date | moment | list | map | set => simp [sameKey, keyForm]

namespace Entries

variable {es : Entries} {name : String}

theorem get?_cons (k v : Value) (rest : Entries) (name : String) :
    get? ((k, v) :: rest) name = if k.sameKey (.text name) then some v else get? rest name := by
  rw [get?, List.find?_cons]
  cases k.sameKey (.text name) <;> rfl

@[simp]
theorem get?_put (es : Entries) (key : String) (v : Value) (name : String) :
    (es.put (.text key) v).get? name = if key = name then some v else es.get? name := by
  induction es with
  | nil =>
    rw [put, get?_cons, Value.sameKey_text]
    simp only [beq_iff_eq]
  | cons e rest ih =>
    obtain ⟨k, v'⟩ := e
    rw [put]
    split
    · next hkey =>
      obtain rfl := Value.sameKey_text_iff.1 hkey
      rw [get?_cons, get?_cons, Value.sameKey_text]
      simp only [beq_iff_eq]
      split <;> rfl
    · next hkey =>
      rw [get?_cons, get?_cons, ih]
      split
      · next hname =>
        obtain rfl := Value.sameKey_text_iff.1 hname
        rw [if_neg]
        rintro rfl
        simp at hkey
      · rfl

theorem get?_append (es es' : Entries) (name : String) :
    get? (es ++ es') name = (get? es name).or (get? es' name) := by
  induction es with
  | nil => rfl
  | cons e es ih =>
    rw [List.cons_append, get?_cons, get?_cons, ih]
    split <;> rfl

/-! ## Keys -/

theorem forall_put {P : Value → Prop} {k : Value} (hes : ∀ e ∈ es, P e.1) (hk : P k) (v : Value) :
    ∀ e ∈ es.put k v, P e.1 := by
  induction es with
  | nil => exact fun e he ↦ List.mem_singleton.1 he ▸ hk
  | cons e rest ih =>
    obtain ⟨he, hrest⟩ := List.forall_mem_cons.1 hes
    rw [put]
    split
    · exact List.forall_mem_cons.2 ⟨he, hrest⟩
    · exact List.forall_mem_cons.2 ⟨he, ih hrest⟩

/-- No other keys come in than those of the changes. -/
theorem forall_putAll {P : Value → Prop} {changes : Entries} (hes : ∀ e ∈ es, P e.1)
    (hchanges : ∀ e ∈ changes, P e.1) : ∀ e ∈ putAll es changes, P e.1 := by
  induction changes generalizing es with
  | nil => exact hes
  | cons e changes ih =>
    obtain ⟨he, hchanges⟩ := List.forall_mem_cons.1 hchanges
    exact ih (forall_put hes he e.2) hchanges

/-- Of several changes under one name the last one counts. -/
theorem get?_putAll {changes : Entries} (h : ∀ e ∈ changes, ∃ key, e.1 = .text key) (es : Entries)
    (name : String) :
    (putAll es changes).get? name = (get? changes.reverse name).or (es.get? name) := by
  induction changes generalizing es with
  | nil => rfl
  | cons e changes ih =>
    obtain ⟨⟨key, hkey⟩, hchanges⟩ := List.forall_mem_cons.1 h
    obtain ⟨k, v⟩ := e
    obtain rfl : k = .text key := hkey
    have hput : putAll es ((.text key, v) :: changes) = putAll (es.put (.text key) v) changes := rfl
    rw [hput, ih hchanges, get?_put, List.reverse_cons, get?_append, Option.or_assoc, get?_cons,
      Value.sameKey_text]
    simp only [beq_iff_eq]
    split <;> rfl

end Entries

end Testbed.Data

import Mathlib.Data.List.Nodup
import Testbed.Config

/-!
# Checks and the values they give

What a check accepts it gives in a normal form.  The checks of texts, flags, integers and containers
accept their normal forms and change nothing about them; the check of a time limit does so unless the
limit is a number that is not positive.
-/

namespace Testbed.Validation

open Data (Value Entries)

variable {α : Type}

/-! ## Fields -/

theorem Checked.under_eq_ok {step : Step} {c : Checked α} {x : α} :
    c.under step = .ok x ↔ c = .ok x := by
  cases c <;> simp [Checked.under, Except.mapError]

theorem Checked.map_eq_ok {β : Type} {f : α → β} {c : Checked α} {y : β} :
    c.map f = .ok y ↔ ∃ x, c = .ok x ∧ f x = y := by
  cases c <;> simp [Except.map]

theorem verdict_eq_ok {model : String} {c : Checked α} {x : α} :
    verdict model c = .ok x ↔ c = .ok x := by
  cases c <;> simp [verdict, Except.mapError]

/-- A field has its default, or a value that passes its check. -/
theorem field_eq_ok {es : Entries} {name : String} {default x : α} {check : Value → Checked α}
    (h : field es name default check = .ok x) :
    x = default ∨ ∃ v, es.get? name = some v ∧ check v = .ok x := by
  unfold field at h
  split at h
  · exact .inl (Except.ok.inj h).symm
  · next v hv => exact .inr ⟨v, hv, Checked.under_eq_ok.1 h⟩

theorem field_of_get? {es : Entries} {name : String} {default : α} {check : Value → Checked α} {v : Value}
    (h : es.get? name = some v) : field es name default check = (check v).under (.name name) := by
  rw [field, h]

theorem noOthers_eq_ok {es : Entries} {names : List String}
    (h : ∀ e ∈ es, ∃ name ∈ names, e.1 = .text name) : noOthers es names = .ok () := by
  unfold noOthers
  dsimp only
  rw [if_pos]
  rw [List.isEmpty_iff, List.filterMap_eq_nil_iff]
  intro e he
  obtain ⟨name, hname, hkey⟩ := h e he
  obtain ⟨k, v⟩ := e
  obtain rfl : k = .text name := hkey
  exact if_pos (List.contains_iff_mem.2 hname)

/-! ## Integers -/

theorem le_of_integerFrom {least n : Int} {v : Value} (h : integerFrom least v = .ok n) :
    least ≤ n := by
  unfold integerFrom at h
  split at h
  · split at h
    · cases h
    · next hle =>
      obtain rfl := Except.ok.inj h
      omega
  · cases h

theorem integerFrom_int {least n : Int} (h : least ≤ n) : integerFrom least (.int n) = .ok n := by
  rw [integerFrom, integer]
  exact if_neg (by omega)

/-! ## Time limits -/

/-- A positive limit, or one that is not a number, is kept as it is; any other one is refused. -/
theorem limit_float (x : Float) : limit (.float x) =
    if x ≤ 0 then reject (.badDuration (.notPositive (Value.float x).shown)) else .ok (some x) := by
  simp only [limit, Duration.parse, Duration.Given.seconds, bind, Except.bind]
  split <;> split <;> simp_all [Duration.Given.shown]

/-! ## Containers -/

theorem Checked.all_eq_ok {checks : List (Checked α)} {xs : List α} :
    Checked.all checks = .ok xs ↔ checks = xs.map .ok := by
  induction checks generalizing xs with
  | nil => simp [Checked.all, eq_comm]
  | cons c checks ih =>
    rw [Checked.all, Checked.map_eq_ok]
    constructor
    · rintro ⟨⟨y, ys⟩, hboth, rfl⟩
      obtain ⟨rfl, hrest⟩ := Checked.both_eq_ok_iff.1 hboth
      rw [ih.1 hrest]
      rfl
    · intro h
      obtain _ | ⟨y, ys⟩ := xs
      · cases h
      · obtain ⟨rfl, hrest⟩ := List.cons.inj h
        exact ⟨(y, ys), Checked.both_eq_ok_iff.2 ⟨rfl, ih.2 hrest⟩, rfl⟩

theorem texts_list (names : List String) : texts (.list (names.map .text)) = .ok names := by
  have hchecks : (names.map Value.text).mapIdx (fun i v ↦ (text v).under (.index i)) =
      names.map .ok := by
    refine List.ext_getElem? fun i ↦ ?_
    rw [List.getElem?_mapIdx, List.getElem?_map, List.getElem?_map, Option.map_map]
    rfl
  rw [texts, hchecks, Checked.all_eq_ok]

theorem text_eq_ok_of_texts {vs : List Value} {names : List String} (h : texts (.list vs) = .ok names) :
    ∀ v ∈ vs, ∃ name, text v = .ok name := by
  intro v hv
  obtain ⟨i, hi, rfl⟩ := List.mem_iff_getElem.1 hv
  have hall := congrArg (·[i]?) (Checked.all_eq_ok.1 h)
  simp only [List.getElem?_mapIdx, List.getElem?_eq_getElem hi, Option.map_some, List.getElem?_map] at hall
  obtain ⟨name, -, hname⟩ := Option.map_eq_some_iff.1 hall.symm
  exact ⟨name, Checked.under_eq_ok.1 hname.symm⟩

/-- No two entries have one name. -/
def Distinct (entries : List (String × α)) : Prop :=
  (entries.map Prod.fst).Nodup

/-- Entries with a further one, which replaces the one of its name. -/
def putEntry (es : List (String × α)) (e : String × α) : List (String × α) :=
  if es.any (·.1 = e.1) then es.map fun e' ↦ if e'.1 = e.1 then e else e' else es ++ [e]

theorem distinct_eq_foldl (entries : List (String × α)) :
    distinct entries = entries.foldl putEntry [] :=
  rfl

theorem Distinct.put {es : List (String × α)} (h : Distinct es) (e : String × α) :
    Distinct (putEntry es e) := by
  unfold Distinct putEntry
  split
  · have hnames : (es.map fun e' ↦ if e'.1 = e.1 then e else e').map Prod.fst = es.map Prod.fst := by
      rw [List.map_map]
      refine List.map_congr_left fun e' _ ↦ ?_
      simp only [Function.comp_apply]
      split
      · next he => exact he.symm
      · rfl
    rwa [hnames]
  · next hnew =>
    rw [List.map_append, List.nodup_append]
    refine ⟨h, List.nodup_singleton _, fun name hname name' hname' ↦ ?_⟩
    obtain ⟨e', he', rfl⟩ := List.mem_map.1 hname
    obtain rfl : name' = e.1 := by simpa using hname'
    intro heq
    exact hnew (List.any_eq_true.2 ⟨e', he', by simpa using heq⟩)

theorem Distinct.foldl {es : List (String × α)} (h : Distinct es) (entries : List (String × α)) :
    Distinct (entries.foldl putEntry es) := by
  induction entries generalizing es with
  | nil => exact h
  | cons e entries ih => exact ih (h.put e)

theorem distinct_distinct (entries : List (String × α)) : Distinct (distinct entries) := by
  have hnil : Distinct ([] : List (String × α)) := List.nodup_nil
  rw [distinct_eq_foldl]
  exact hnil.foldl entries

theorem putEntry_of_not_mem {es : List (String × α)} {e : String × α} (h : e.1 ∉ es.map Prod.fst) :
    putEntry es e = es ++ [e] := by
  refine if_neg fun hany ↦ h ?_
  obtain ⟨e', he', heq⟩ := List.any_eq_true.1 hany
  exact List.mem_map.2 ⟨e', he', by simpa using heq⟩

/-- Entries with different names are kept as they are. -/
theorem Distinct.distinct_eq {entries : List (String × α)} (h : Distinct entries) :
    distinct entries = entries := by
  have hfold (rest es : List (String × α)) (h : Distinct (es ++ rest)) :
      rest.foldl putEntry es = es ++ rest := by
    induction rest generalizing es with
    | nil => exact (List.append_nil es).symm
    | cons e rest ih =>
      have hnew : e.1 ∉ es.map Prod.fst := by
        rw [Distinct, List.map_append, List.nodup_append] at h
        exact fun hmem ↦ h.2.2 _ hmem e.1 (by simp) rfl
      rw [List.foldl_cons, putEntry_of_not_mem hnew, ih (es ++ [e]) (by simpa using h),
        List.append_assoc]
      rfl
  rw [distinct_eq_foldl]
  exact hfold entries [] h

theorem distinct_of_mapping {check : Value → Checked α} {v : Value} {entries : List (String × α)}
    (h : mapping check v = .ok entries) : Distinct entries := by
  cases v with
  | map es =>
    obtain ⟨es', -, rfl⟩ := Checked.map_eq_ok.1 h
    exact distinct_distinct es'
  | null | flag | int | float | text | bytes | date | moment | list | set => cases h

theorem mapping_map {entries : List (String × Value)} (h : Distinct entries) :
    mapping anything (.map (entries.map fun (name, v) ↦ (.text name, v))) = .ok entries := by
  rw [mapping, List.map_map]
  have hall : Checked.all (entries.map .ok) = .ok entries := Checked.all_eq_ok.2 rfl
  exact (congrArg (Except.map distinct) hall).trans (congrArg _ h.distinct_eq)

end Testbed.Validation

import Testbed.Proofs.Config.Checks

/-!
# Defects that a check finds

Which defects a check can find, said for each way of combining checks.  An integer duration beyond
the finite doubles is found in the time limit of a policy and nowhere else; it alone makes a
configuration overflow.
-/

namespace Testbed

open Data (Value Entries)
open Validation

namespace Validation

variable {α β : Type} {d : Defect}

/-- A check finds a defect, maybe among others. -/
def Checked.Finds (c : Checked α) (d : Defect) : Prop :=
  ∃ issues, c = .error issues ∧ ∃ i ∈ issues, i.defect = d

/-! ## Combined checks -/

namespace Checked

@[simp]
theorem finds_ok (x : α) : ¬ Finds (.ok x) d := by
  rintro ⟨issues, h, -⟩
  cases h

@[simp]
theorem finds_error (issues : List Issue) :
    Finds (.error issues : Checked α) d ↔ ∃ i ∈ issues, i.defect = d := by
  simp [Finds]

@[simp]
theorem finds_reject (d' : Defect) : Finds (reject d' : Checked α) d ↔ d' = d := by
  simp [reject]

@[simp]
theorem finds_under (step : Step) (c : Checked α) : (c.under step).Finds d ↔ c.Finds d := by
  cases c with
  | ok x => simp [under, Except.mapError]
  | error issues => simp [under, Except.mapError, Issue.under]

@[simp]
theorem finds_map (f : α → β) (c : Checked α) : Finds (Except.map f c) d ↔ c.Finds d := by
  cases c <;> simp [Except.map]

@[simp]
theorem finds_both (a : Checked α) (b : Checked β) :
    (both a b).Finds d ↔ a.Finds d ∨ b.Finds d := by
  cases a <;> cases b <;> simp [both, or_and_right, exists_or]

@[simp]
theorem finds_all (l : List (Checked α)) : (all l).Finds d ↔ ∃ c ∈ l, c.Finds d := by
  induction l with
  | nil => simp [all]
  | cons c l ih => simp [all, ih]

end Checked

@[simp]
theorem finds_field {es : Entries} {name : String} {default : α} {check : Value → Checked α} :
    (field es name default check).Finds d ↔ ∃ v, es.get? name = some v ∧ (check v).Finds d := by
  unfold field
  cases es.get? name <;> simp

theorem verdict_overflow {model : String} {c : Checked α} :
    verdict model c = .error .overflow ↔ c.Finds (.badDuration .tooLarge) := by
  cases c with
  | ok x => simp [verdict, Except.mapError]
  | error issues => simp [verdict, Except.mapError]

/-! ## Durations -/

variable {e : Duration.Error}

theorem noOthers_finds (es : Entries) (names : List String) :
    ¬ (noOthers es names).Finds (.badDuration e) := by
  unfold noOthers
  dsimp only
  split
  · simp
  · rw [Checked.finds_error]
    rintro ⟨i, hi, hdefect⟩
    obtain ⟨⟨key, v⟩, -, hi⟩ := List.mem_filterMap.1 hi
    dsimp only at hi
    split at hi
    · split at hi
      · cases hi
      · obtain rfl := Option.some_inj.1 hi
        cases hdefect
    · obtain rfl := Option.some_inj.1 hi
      cases hdefect

theorem text_finds (v : Value) : ¬ (text v).Finds (.badDuration e) := by
  unfold text
  split
  · simp
  · split <;> simp
  · simp

theorem flagOfInt_finds (n : Int) : ¬ (flagOfInt n).Finds (.badDuration e) := by
  unfold flagOfInt
  split
  · simp
  · split <;> simp

theorem written?_finds {v : Value} {unclear : Defect} {issues : List Issue}
    (hunclear : unclear ≠ .badDuration e) (h : written? v unclear = some (.error issues)) :
    ¬ Checked.Finds (.error issues : Checked α) (.badDuration e) := by
  cases v with
  | bytes b =>
    simp only [written?, reject] at h
    split at h
    · cases h
    · obtain rfl := Except.error.inj (Option.some_inj.1 h)
      simpa using hunclear
  | text s => cases h
  | null | flag | int | float | date | moment | list | map | set => cases h

theorem flag_finds (v : Value) : ¬ (flag v).Finds (.badDuration e) := by
  unfold flag
  split
  · simp
  · split
    · exact flagOfInt_finds _
    · simp
  · split
    · split
      · exact flagOfInt_finds _
      · simp
    · simp
  · split
    · unfold flagOfWord
      split <;> simp
    · next h => exact written?_finds (by simp) h
    · simp

theorem integer_finds (v : Value) : ¬ (integer v).Finds (.badDuration e) := by
  unfold integer
  split
  · simp
  · simp
  · unfold integerOfFloat
    split
    · split
      · split <;> simp
      · simp
    · simp
  · split
    · unfold integerOfText
      dsimp only
      split
      · simp
      · split <;> simp
    · next h => exact written?_finds (by simp) h
    · simp

theorem integerFrom_finds (least : Int) (v : Value) :
    ¬ (integerFrom least v).Finds (.badDuration e) := by
  unfold integerFrom
  split
  · split <;> simp
  · next h =>
    have hinteger := integer_finds (e := e) v
    rwa [h] at hinteger

theorem texts_finds (v : Value) : ¬ (texts v).Finds (.badDuration e) := by
  unfold texts
  split
  · rw [Checked.finds_all]
    rintro ⟨c, hc, hfinds⟩
    obtain ⟨i, hi, rfl⟩ := List.mem_mapIdx.1 hc
    exact text_finds _ ((Checked.finds_under _ _).1 hfinds)
  · simp
  · simp
  · simp

theorem mapping_finds {check : Value → Checked α} (hcheck : ∀ v, ¬ (check v).Finds (.badDuration e))
    (v : Value) : ¬ (mapping check v).Finds (.badDuration e) := by
  unfold mapping
  split
  · rw [Checked.finds_map, Checked.finds_all]
    rintro ⟨c, hc, hfinds⟩
    obtain ⟨⟨key, v⟩, -, rfl⟩ := List.mem_map.1 hc
    simp only [entry, Checked.finds_under, Checked.finds_both] at hfinds
    exact hfinds.elim (text_finds key) (hcheck v)
  · simp

theorem seconds_tooLarge_iff {given : Duration.Given} : given.seconds = .error .tooLarge ↔
    ∃ n, given = .whole n ∧ (Decimal.nearestInt n).isInf = true := by
  cases given with
  | flag b => simp [Duration.Given.seconds]
  | real x => simp [Duration.Given.seconds]
  | text s =>
    rw [Duration.Given.seconds]
    split <;> simp
  | whole n => simp [Duration.Given.seconds, Duration.ofWhole]

theorem parse_tooLarge_iff {given : Duration.Given} : Duration.parse given = .error .tooLarge ↔
    ∃ n, given = .whole n ∧ (Decimal.nearestInt n).isInf = true := by
  rw [← seconds_tooLarge_iff, Duration.parse]
  cases given.seconds with
  | error e => simp [bind, Except.bind]
  | ok x =>
    simp only [bind, Except.bind]
    split <;> simp

/-- An integer is too large for a time limit if it lies beyond the finite doubles. -/
theorem duration_tooLarge_iff (given : Duration.Given) :
    Checked.Finds (match Duration.parse given with
      | .ok x => .ok (some x)
      | .error e => reject (.badDuration e) : Checked (Option Float)) (.badDuration .tooLarge) ↔
        ∃ n, given = .whole n ∧ (Decimal.nearestInt n).isInf = true := by
  rw [← parse_tooLarge_iff]
  cases Duration.parse given <;> simp

theorem limit_tooLarge_iff {v : Value} : (limit v).Finds (.badDuration .tooLarge) ↔
    ∃ n, v = .int n ∧ (Decimal.nearestInt n).isInf = true := by
  cases v with
  | int n => exact (duration_tooLarge_iff (.whole n)).trans (by simp)
  | float x => exact (duration_tooLarge_iff (.real x)).trans (by simp)
  | text s => exact (duration_tooLarge_iff (.text s)).trans (by simp)
  | bytes b =>
    unfold limit
    dsimp only
    split
    · unfold numberOfText
      split <;> simp
    · simp
  | null | flag | date | moment | list | map | set => simp [limit]

end Validation

/-! ## Records -/

/-- Data of a policy whose time limit is an integer beyond the finite doubles. -/
def Policy.Overflows (v : Value) : Prop :=
  ∃ (es : Entries) (n : Int), v = .map es ∧ es.get? "timeout" = some (.int n) ∧
    (Decimal.nearestInt n).isInf = true

theorem Policy.check_tooLarge_iff {v : Value} :
    (check v).Finds (.badDuration .tooLarge) ↔ Overflows v := by
  cases v with
  | map es =>
    simp only [check, Checked.finds_map, Checked.finds_both, finds_field, flag_finds,
      integerFrom_finds, limit_tooLarge_iff, noOthers_finds, and_false, exists_false, or_false,
      false_or, Overflows, Value.map.injEq]
    constructor
    · rintro ⟨v, hget, n, rfl, hinf⟩
      exact ⟨es, n, rfl, hget, hinf⟩
    · rintro ⟨_, n, rfl, hget, hinf⟩
      exact ⟨_, hget, n, rfl, hinf⟩
  | null | flag | int | float | text | bytes | date | moment | list | set => simp [check, Overflows]

/-- Data of a configuration whose policy overflows. -/
def Config.Overflows (v : Value) : Prop :=
  ∃ (es : Entries) (policy : Value), v = .map es ∧ es.get? "policy" = some policy ∧
    Policy.Overflows policy

theorem Config.validate_overflow_iff {v : Value} : validate v = .error .overflow ↔ Overflows v := by
  rw [validate, verdict_overflow]
  cases v with
  | map es =>
    have hsettings (v : Value) :
        ¬ (mapping anything v).Finds (.badDuration .tooLarge) :=
      mapping_finds (fun _ ↦ by simp [anything]) v
    simp only [check, Checked.finds_map, Checked.finds_both, finds_field, text_finds, hsettings,
      texts_finds, Policy.check_tooLarge_iff, noOthers_finds, and_false, exists_false, or_false,
      false_or, Overflows, Value.map.injEq]
    constructor
    · rintro ⟨policy, hget, h⟩
      exact ⟨es, policy, rfl, hget, h⟩
    · rintro ⟨_, policy, rfl, hget, h⟩
      exact ⟨policy, hget, h⟩
  | null | flag | int | float | text | bytes | date | moment | list | set => simp [check, Overflows]

end Testbed

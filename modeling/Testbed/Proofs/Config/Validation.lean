import Testbed.Proofs.Config.Checks

/-!
# Validated configurations

A configuration that was accepted is written out as data and checked again whenever options are put
over it.  Every field comes back as it was, with one exception: a time limit that is not positive
was accepted as a flag or as bytes, and is refused as the number that it has become.
-/

namespace Testbed

open Data (Value Entries)
open Validation

/-! ## Policies -/

/-- What the checks guarantee of a policy; its time limit is not among it. -/
structure Policy.IsChecked (p : Policy) : Prop where
  parallelism : 1 ≤ p.parallelism
  retries : 0 ≤ p.retries

/-- The time limit of a policy, if it is not positive. -/
def Policy.idleLimit? (p : Policy) : Option Float :=
  p.timeout.filter (· ≤ 0)

/-- What is said about a time limit that is not positive. -/
def limitDefect (x : Float) : Defect :=
  .badDuration (.notPositive (Value.float x).shown)

namespace Policy

variable {p : Policy} {v : Value} {x : Float}

theorem idleLimit?_eq_some : p.idleLimit? = some x ↔ p.timeout = some x ∧ x ≤ 0 := by
  simp [idleLimit?, Option.filter_eq_some_iff]

theorem idleLimit?_eq_none : p.idleLimit? = none ↔ ∀ x, p.timeout = some x → ¬ x ≤ 0 := by
  simp [idleLimit?, Option.filter_eq_none_iff]

/-- Data is accepted as a policy exactly if each field is accepted and there are no others. -/
theorem check_map_eq_ok {es : Entries} : check (.map es) = .ok p ↔
    field es "fail_fast" false flag = .ok p.failFast ∧
      field es "parallelism" 1 (integerFrom 1) = .ok p.parallelism ∧
      field es "capture_output" true flag = .ok p.captureOutput ∧
      field es "timeout" none limit = .ok p.timeout ∧
      field es "retries" 0 (integerFrom 0) = .ok p.retries ∧ noOthers es fieldNames = .ok () := by
  rw [check, Checked.map_eq_ok]
  simp only [Prod.exists, Checked.both_eq_ok_iff]
  constructor
  · rintro ⟨_, _, _, _, _, _, ⟨h₁, h₂, h₃, h₄, h₅, h₆⟩, rfl⟩
    exact ⟨h₁, h₂, h₃, h₄, h₅, h₆⟩
  · rintro ⟨h₁, h₂, h₃, h₄, h₅, h₆⟩
    exact ⟨_, _, _, _, _, _, ⟨h₁, h₂, h₃, h₄, h₅, h₆⟩, rfl⟩

theorem isChecked_of_check (h : check v = .ok p) : p.IsChecked := by
  cases v with
  | map es =>
    obtain ⟨-, hparallelism, -, -, hretries, -⟩ := check_map_eq_ok.1 h
    constructor
    · obtain hdefault | ⟨v, -, hv⟩ := field_eq_ok hparallelism
      · exact Int.le_of_eq hdefault.symm
      · exact le_of_integerFrom hv
    · obtain hdefault | ⟨v, -, hv⟩ := field_eq_ok hretries
      · exact Int.le_of_eq hdefault.symm
      · exact le_of_integerFrom hv
  | null | flag | int | float | text | bytes | date | moment | list | set => cases h

/-- A time limit as data. -/
def limitValue : Option Float → Value
  | none => .null
  | some x => .float x

theorem toValue_eq (p : Policy) : p.toValue =
    .map [(.text "fail_fast", .flag p.failFast), (.text "parallelism", .int p.parallelism),
      (.text "capture_output", .flag p.captureOutput), (.text "timeout", limitValue p.timeout),
      (.text "retries", .int p.retries)] := by
  rcases p with ⟨_, _, _, _ | _, _⟩ <;> rfl

/-- The data of a policy that was accepted passes the check of each field except for the time
limit. -/
theorem check_toValue_eq (h : p.IsChecked) : check p.toValue =
    ((limit (limitValue p.timeout)).under (.name "timeout")).map fun timeout ↦ { p with timeout } := by
  have hothers : noOthers [(.text "fail_fast", .flag p.failFast),
      (.text "parallelism", .int p.parallelism), (.text "capture_output", .flag p.captureOutput),
      (.text "timeout", limitValue p.timeout), (.text "retries", .int p.retries)] fieldNames =
        .ok () := rfl
  rw [toValue_eq, check, field_of_get? (v := .flag p.failFast) rfl,
    field_of_get? (v := .int p.parallelism) rfl, field_of_get? (v := .flag p.captureOutput) rfl,
    field_of_get? (v := limitValue p.timeout) rfl, field_of_get? (v := .int p.retries) rfl,
    integerFrom_int h.parallelism, integerFrom_int h.retries, hothers]
  generalize (limit _).under _ = timeout
  cases timeout <;> rfl

/-- The check of a policy that was accepted finds fault with nothing but its time limit. -/
theorem check_toValue (h : p.IsChecked) : check p.toValue =
    match p.idleLimit? with
    | some x => (reject (limitDefect x)).under (.name "timeout")
    | none => .ok p := by
  rw [check_toValue_eq h]
  cases hidle : p.idleLimit? with
  | some x =>
    obtain ⟨htimeout, hx⟩ := idleLimit?_eq_some.1 hidle
    rw [htimeout, limitValue, limit_float, if_pos hx]
    rfl
  | none =>
    obtain ⟨failFast, parallelism, captureOutput, timeout, retries⟩ := p
    cases timeout with
    | none => rfl
    | some x =>
      rw [limitValue, limit_float, if_neg (idleLimit?_eq_none.1 hidle x rfl)]
      rfl

end Policy

/-! ## Configurations -/

namespace Config

variable {c : Config} {v : Value} {x : Float}

/-- What the checks guarantee of a configuration. -/
structure IsChecked (c : Config) : Prop where
  settings : Distinct c.runnerConfig
  policy : c.policy.IsChecked

theorem isChecked_default : default.IsChecked where
  settings := List.nodup_nil
  policy := { parallelism := Int.le_refl 1, retries := Int.le_refl 0 }

/-- Data is accepted as a configuration exactly if each field is accepted and there are no others. -/
theorem check_map_eq_ok {es : Entries} : check (.map es) = .ok c ↔
    field es "version" default.version text = .ok c.version ∧
      field es "runner" default.runner text = .ok c.runner ∧
      field es "runner_config" default.runnerConfig (mapping anything) = .ok c.runnerConfig ∧
      field es "components" default.components texts = .ok c.components ∧
      field es "policy" default.policy Policy.check = .ok c.policy ∧ noOthers es fieldNames = .ok () := by
  rw [check, Checked.map_eq_ok]
  simp only [Prod.exists, Checked.both_eq_ok_iff]
  constructor
  · rintro ⟨_, _, _, _, _, _, ⟨h₁, h₂, h₃, h₄, h₅, h₆⟩, rfl⟩
    exact ⟨h₁, h₂, h₃, h₄, h₅, h₆⟩
  · rintro ⟨h₁, h₂, h₃, h₄, h₅, h₆⟩
    exact ⟨_, _, _, _, _, _, ⟨h₁, h₂, h₃, h₄, h₅, h₆⟩, rfl⟩

theorem isChecked_of_validate (h : validate v = .ok c) : c.IsChecked := by
  have hcheck := verdict_eq_ok.1 h
  cases v with
  | map es =>
    obtain ⟨-, -, hsettings, -, hpolicy, -⟩ := check_map_eq_ok.1 hcheck
    constructor
    · obtain hdefault | ⟨v, -, hv⟩ := field_eq_ok hsettings
      · rw [hdefault]
        exact isChecked_default.settings
      · exact distinct_of_mapping hv
    · obtain hdefault | ⟨v, -, hv⟩ := field_eq_ok hpolicy
      · rw [hdefault]
        exact isChecked_default.policy
      · exact Policy.isChecked_of_check hv
  | null | flag | int | float | text | bytes | date | moment | list | set => cases hcheck

/-- The data of a configuration that was accepted passes the check of each field except for the
policy. -/
theorem check_toValue_eq (h : c.IsChecked) : check c.toValue =
    ((Policy.check c.policy.toValue).under (.name "policy")).map fun policy ↦ { c with policy } := by
  have hsettings := mapping_map h.settings
  unfold toValue
  generalize Value.map (c.runnerConfig.map _) = settings at hsettings ⊢
  have hothers : noOthers [(.text "version", .text c.version), (.text "runner", .text c.runner),
      (.text "runner_config", settings), (.text "components", .list (c.components.map .text)),
      (.text "policy", c.policy.toValue)] fieldNames = .ok () := rfl
  rw [check, field_of_get? (v := .text c.version) rfl, field_of_get? (v := .text c.runner) rfl,
    field_of_get? (v := settings) rfl, field_of_get? (v := .list (c.components.map .text)) rfl,
    field_of_get? (v := c.policy.toValue) rfl, hsettings, texts_list, hothers]
  generalize (Policy.check _).under _ = policy
  cases policy <;> rfl

/-- What a configuration is refused for whose time limit is not positive. -/
def idleRejection (x : Float) : Rejection :=
  .flawed model [⟨[.name "policy", .name "timeout"], limitDefect x⟩]

/-- A configuration that was accepted is accepted again as it is, unless its time limit is not
positive: then it is refused for that alone. -/
theorem validate_toValue (h : c.IsChecked) : validate c.toValue =
    match c.policy.idleLimit? with
    | some x => .error (idleRejection x)
    | none => .ok c := by
  rw [validate, check_toValue_eq h, Policy.check_toValue h.policy]
  cases c.policy.idleLimit? <;> rfl

theorem validate_toValue_eq_ok_iff (h : validate v = .ok c) :
    validate c.toValue = .ok c ↔ ∀ x, c.policy.timeout = some x → ¬ x ≤ 0 := by
  rw [validate_toValue (isChecked_of_validate h), ← Policy.idleLimit?_eq_none]
  cases c.policy.idleLimit? <;> simp

/-- A configuration whose attempts have no time. -/
def idle : Config :=
  { default with policy := { timeout := some 0.0 } }

theorem idle_isChecked : idle.IsChecked where
  settings := List.nodup_nil
  policy := { parallelism := Int.le_refl 1, retries := Int.le_refl 0 }

/-- With a flag for its time limit a configuration is accepted, but not accepted again. -/
theorem validate_toValue_idle :
    validate (.map [(.text "policy", .map [(.text "timeout", .flag false)])]) = .ok idle ∧
      validate idle.toValue = .error (idleRejection 0.0) := by
  have hidle : idle.policy.idleLimit? = some 0.0 :=
    Policy.idleLimit?_eq_some.2 ⟨rfl, by decide +kernel⟩
  refine ⟨rfl, ?_⟩
  rw [validate_toValue idle_isChecked, hidle]

end Config

end Testbed

import Testbed.Proofs.Config.Loading
import Testbed.Proofs.Data.Entries

/-!
# Options over configurations

What becomes of the configuration in a file when the options of a command line are put over it, and
which errors on the way are not reported as errors of the configuration.  The data that results is
checked once more, but no option makes it overflow: an option gives a time limit as a text.
-/

namespace Testbed.CommandLine.Arguments

open Data (Value Entries)
open Validation

variable {a : Arguments} {c : Config} {files : Files}

/-! ## Command lines without overrides -/

/-- The options replace nothing in the configuration. -/
structure IsPlain (a : Arguments) : Prop where
  components : a.components = []
  runner : a.runner = .absent
  runnerConfig : a.runnerConfig = .absent
  failFast : a.failFast = false
  parallelism : a.parallelism = .absent
  noCapture : a.noCapture = false
  timeout : a.timeout = .absent
  retries : a.retries = .absent

theorem IsPlain.merged (plain : a.IsPlain) (c : Config) : a.merged c = .ok c.toValue := by
  have hchanges : a.runnerConfigChanges = .ok [] := by rw [runnerConfigChanges, plain.runnerConfig]
  have hother : a.otherRunner? c = none := by rw [otherRunner?, plain.runner]; rfl
  have hcomponents : a.componentsOver c = .list (c.components.map .text) := by
    rw [componentsOver, plain.components]
    rfl
  have hpolicy : a.policyOver c = c.policy.toValue := by
    have hnone : a.policyChanges = [] := by
      simp [policyChanges, plain.failFast, plain.parallelism, plain.noCapture, plain.timeout,
        plain.retries, Given.toValue?]
    rw [policyOver, Policy.toValue_eq, hnone]
    rfl
  rw [Arguments.merged, hchanges, runnerConfigOver, hother, hcomponents, hpolicy]
  rfl

/-- Without overrides the configuration of the file is checked again, which refuses a time limit
that is not positive. -/
theorem IsPlain.apply (plain : a.IsPlain) (h : c.IsChecked) : a.apply c =
    match c.policy.idleLimit? with
    | some x => .error (.flawed Config.model [⟨[.name "policy", .name "timeout"], limitDefect x⟩])
    | none => .ok c := by
  rw [Arguments.apply, plain.merged]
  simp only [bind, Except.bind, Config.validate_toValue h]
  cases c.policy.idleLimit? <;> rfl

/-- A command line without overrides gives the configuration that the file gives, unless its time
limit is not positive: then the file's configuration is refused as if an option were wrong. -/
theorem IsPlain.configuration (plain : a.IsPlain) {asked : Option Path} (hfile : a.file? = .ok asked)
    {note : Note} (h : Config.resolve files asked = .ok (c, note)) :
    a.configuration files = ([note], match c.policy.idleLimit? with
      | some x => .error (.flawed Config.model [⟨[.name "policy", .name "timeout"], limitDefect x⟩])
      | none => .ok c) := by
  rw [Arguments.configuration, hfile]
  simp only [h, plain.apply (Config.isChecked_of_resolve h)]

/-- A file that asks for attempts without time is refused as if an option did. -/
example : (({} : Arguments).configuration {
    file? := fun _ ↦ some "policy: \x7btimeout: off\x7d".toUTF8.toList
    isDirectory := fun _ ↦ false }).2 matches .error (.flawed "HarnessConfig"
      [⟨[.name "policy", .name "timeout"], .badDuration (.notPositive "0.0")⟩]) := by
  decide +kernel

/-! ## The data that is checked -/

/-- The change of one field, if there is one. -/
def change (name : String) (v? : Option Value) : Entries :=
  (v?.map fun v ↦ (.text name, v)).toList

theorem policyChanges_eq (a : Arguments) : a.policyChanges =
    change "fail_fast" (if a.failFast then some (.flag true) else none) ++
      change "parallelism" (a.parallelism.toValue? .int) ++
      change "capture_output" (if a.noCapture then some (.flag false) else none) ++
      change "timeout" (a.timeout.toValue? .text) ++ change "retries" (a.retries.toValue? .int) :=
  rfl

theorem exists_name_of_mem_change {name : String} {v? : Option Value} {e : Value × Value}
    (h : e ∈ change name v?) : ∃ key, e.1 = .text key := by
  cases v? with
  | none => cases h
  | some v => exact ⟨name, by rw [List.mem_singleton.1 h]⟩

theorem exists_name_of_mem_policyChanges {e : Value × Value} (h : e ∈ a.policyChanges) :
    ∃ key, e.1 = .text key := by
  simp only [policyChanges_eq, List.mem_append] at h
  obtain (((h | h) | h) | h) | h := h <;> exact exists_name_of_mem_change h

theorem get?_change (name : String) (v? : Option Value) (name' : String) :
    Entries.get? (change name v?).reverse name' = if name = name' then v? else none := by
  cases v? with
  | none =>
    split <;> rfl
  | some v =>
    have hchange : (change name (some v)).reverse = [(.text name, v)] := rfl
    rw [hchange, Entries.get?_cons, Value.sameKey_text]
    simp only [beq_iff_eq]
    rfl

/-- What the options put in the place of the time limit. -/
theorem get?_policyChanges (a : Arguments) :
    Entries.get? a.policyChanges.reverse "timeout" = a.timeout.toValue? .text := by
  simp [policyChanges_eq, Entries.get?_append, get?_change]

/-- The time limit that is checked is the text of an option or the limit of the configuration. -/
theorem get?_policyOver (a : Arguments) (c : Config) : ∃ es, a.policyOver c = .map es ∧
    Entries.get? es "timeout" =
      (a.timeout.toValue? .text).or (some (Policy.limitValue c.policy.timeout)) := by
  rw [policyOver, Policy.toValue_eq]
  refine ⟨_, rfl, ?_⟩
  rw [Entries.get?_putAll fun _ ↦ exists_name_of_mem_policyChanges, get?_policyChanges]
  rfl

theorem policyOver_not_overflows (a : Arguments) (c : Config) :
    ¬ Policy.Overflows (a.policyOver c) := by
  rintro ⟨es, n, hes, hget, -⟩
  obtain ⟨es', hes', hget'⟩ := get?_policyOver a c
  obtain rfl := Value.map.inj (hes.symm.trans hes')
  rw [hget] at hget'
  cases htimeout : a.timeout with
  | absent =>
    rw [htimeout] at hget'
    cases hlimit : c.policy.timeout <;> rw [hlimit] at hget' <;> cases hget'
  | blank =>
    rw [htimeout] at hget'
    cases hget'
  | value s =>
    rw [htimeout] at hget'
    cases hget'

/-! ## Errors that are not reported -/

/-- Something fails with an error that is not reported. -/
def FailsUnreported {α : Type} (r : Except OptionsError α) : Prop :=
  ∃ e, r = .error e ∧ e.isReported = false

@[simp]
theorem failsUnreported_ok {α : Type} (x : α) : ¬ FailsUnreported (.ok x) := by
  simp [FailsUnreported]

@[simp]
theorem failsUnreported_error {α : Type} (e : OptionsError) :
    FailsUnreported (.error e : Except OptionsError α) ↔ e.isReported = false := by
  simp [FailsUnreported]

/-- The configuration that the options give for the runner has an integer that is too long to be
read. -/
def HasLongInteger (a : Arguments) : Prop :=
  ∃ text e digits, a.runnerConfig = .value text ∧ Data.Json.read text = .error e ∧
    e.cause = .tooLong digits

theorem runnerConfigChanges_unreported_iff :
    FailsUnreported a.runnerConfigChanges ↔ a.HasLongInteger := by
  unfold runnerConfigChanges HasLongInteger
  cases a.runnerConfig with
  | absent => simp
  | blank => simp
  | value text =>
    dsimp only
    split
    · next h =>
      subst h
      have hread : Data.Json.read "" = .error ⟨.noValue, 0, 1, 1⟩ := rfl
      simp [hread]
    · split
      · next e h =>
        obtain ⟨cause, position, line, column⟩ := e
        cases cause <;> simp [h, OptionsError.isReported]
      · next h => simp [h]
      · next v _ h => simp [h, OptionsError.isReported]

/-- No option makes a configuration overflow, and what the checks find wrong is reported. -/
theorem apply_unreported_iff : FailsUnreported (a.apply c) ↔ a.HasLongInteger := by
  rw [← runnerConfigChanges_unreported_iff, apply, merged]
  cases a.runnerConfigChanges with
  | error e => simp [bind, Except.bind]
  | ok changes =>
    simp only [bind, Except.bind, failsUnreported_ok, iff_false]
    generalize hdata : Value.map _ = data
    cases hvalid : Config.validate data with
    | ok c' => exact failsUnreported_ok c'
    | error rejection =>
      cases rejection with
      | flawed model issues => simp [Except.mapError, OptionsError.isReported]
      | overflow =>
        obtain ⟨es, policy, hes, hget, hoverflows⟩ := Config.validate_overflow_iff.1 hvalid
        obtain rfl := Value.map.inj (hdata.trans hes)
        obtain rfl : a.policyOver c = policy := Option.some_inj.1 hget
        exact absurd hoverflows (policyOver_not_overflows a c)

theorem resolve_unreported_iff {asked : Option Path} :
    FailsUnreported ((Config.resolve files asked).mapError .load) ↔
      ∃ path bytes, Config.source? files asked = some path ∧ files.file? path = some bytes ∧
        Config.Unexpected bytes := by
  rw [Config.resolve_eq]
  cases Config.source? files asked with
  | none => simp [Except.mapError]
  | some path =>
    simp only [Option.some.injEq, exists_eq_left', exists_and_left, ← Config.load_unreported_iff]
    cases Config.load files path with
    | ok c => simp [Except.map, Except.mapError]
    | error e => simp [Except.map, Except.mapError, Config.LoadError.IsUnreported]

theorem resolved_unreported_iff (asked : Option Path) :
    FailsUnreported (match Config.resolve files asked with
      | .error e => ([], .error (.load e))
      | .ok (c, note) => ([note], a.apply c) : List Note × Except OptionsError Config).2 ↔
        (∃ path bytes, Config.source? files asked = some path ∧ files.file? path = some bytes ∧
            Config.Unexpected bytes) ∨
          (∃ resolved, Config.resolve files asked = .ok resolved) ∧ a.HasLongInteger := by
  rw [← resolve_unreported_iff]
  cases Config.resolve files asked with
  | ok resolved => simp [Except.mapError, apply_unreported_iff]
  | error e => simp [Except.mapError]

/-- The errors of options and files that are not reported come from a blank name of a file, from a
file whose contents are not expected, or from an integer that is too long to be read.  Settings in
which a collection contains itself are left out of account, as by `Data.Yaml.valueOf`: they have no
finite value, and checking them once more ends in a further error that is not reported. -/
theorem configuration_unreported_iff : FailsUnreported (a.configuration files).2 ↔
    a.config = .blank ∨ a.config ≠ .blank ∧
      ((∃ path bytes, Config.source? files a.config.value? = some path ∧
          files.file? path = some bytes ∧ Config.Unexpected bytes) ∨
        (∃ resolved, Config.resolve files a.config.value? = .ok resolved) ∧ a.HasLongInteger) := by
  unfold configuration file?
  cases a.config with
  | absent => exact (resolved_unreported_iff none).trans (by simp [Given.value?])
  | blank => simp [OptionsError.isReported]
  | value path => exact (resolved_unreported_iff (some path)).trans (by simp [Given.value?])

/-- A file that is no text is not reported as a wrong configuration. -/
example : (({} : Arguments).configuration {
    file? := fun _ ↦ some [0xff]
    isDirectory := fun _ ↦ false }).2 matches .error (.load (.undecodable _)) := by
  decide +kernel

end Testbed.CommandLine.Arguments

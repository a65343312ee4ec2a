import Testbed.Proofs.Clock.Durations
import Testbed.Proofs.CommandLine.Options
import Testbed.Proofs.Config.Validation
import Testbed.Proofs.Data.Members

/-!
# Options in the place of fields

The options of a command line are put over a configuration if each of them is usable, and then each
field of the configuration that results is what the option gives or, without the option, what it was.
A setting of the runner stays only with its runner.
-/

namespace Testbed.CommandLine

open Clock
open Data (Value Entries named putAll_named)
open Validation

/-! ## Fields and options -/

namespace Given

variable {α β : Type} {given : Given α}

/-- What is given, if anything is, satisfies a condition; a blank value satisfies none. -/
def Satisfies (p : α → Prop) : Given α → Prop
  | .absent => True
  | .blank => False
  | .value x => p x

/-- A field is what an option means, or what it was. -/
theorem field_eq_ok {toValue : α → Value} {es : Entries} {name : String} {v : Value} {default own y : β}
    {check : Value → Checked β} {p : α → Prop} (meaning : α → β)
    (hget : es.get? name = (given.toValue? toValue).or (some v)) (hown : check v = .ok own)
    (hblank : check (.list []) ≠ .ok y) (hvalue : ∀ x, check (toValue x) = .ok y ↔ p x ∧ meaning x = y) :
    field es name default check = .ok y ↔
      given.Satisfies p ∧ (given.value?.map meaning).getD own = y := by
  cases given with
  | absent =>
    rw [field_of_get? hget, Checked.under_eq_ok, hown]
    simp [Satisfies, value?]
  | blank =>
    rw [field_of_get? hget, Checked.under_eq_ok]
    simp [Satisfies, hblank]
  | value x =>
    rw [field_of_get? hget, Checked.under_eq_ok, hvalue]
    rfl

end Given

/-- A field is what a switch sets, or what it was. -/
theorem flag_field_eq_ok {on set own y : Bool} {es : Entries} {name : String} {default : Bool}
    (hget : es.get? name = (if on then some (.flag set) else none).or (some (.flag own))) :
    field es name default flag = .ok y ↔ (if on then set else own) = y := by
  cases on <;> rw [field_of_get? hget, Checked.under_eq_ok] <;> simp [flag]

theorem integerFrom_int_eq_ok {least n y : Int} :
    integerFrom least (.int n) = .ok y ↔ least ≤ n ∧ n = y := by
  unfold integerFrom integer
  dsimp only
  split
  · simp [reject]
    omega
  · simp
    omega

theorem limit_text_eq_ok {text : String} {y : Option Float} :
    limit (.text text) = .ok y ↔
      (∃ x, Duration.Writes text x) ∧ (Amount.parse? text).map Amount.seconds = y := by
  cases hparse : Duration.parse (.text text) with
  | error e =>
    have hnone : ¬∃ x, Duration.Writes text x := by
      rintro ⟨x, hx⟩
      cases hparse.symm.trans (Duration.parse_text_eq_ok.2 hx)
    simp [limit, hparse, hnone, reject]
  | ok x =>
    have hwrites := Duration.parse_text_eq_ok.1 hparse
    obtain ⟨amount, hamount, -, rfl⟩ := id hwrites
    rw [hamount, and_iff_right ⟨_, hwrites⟩]
    simp [limit, hparse]

namespace Arguments

variable {a : Arguments} {c c' : Config} {files : Files}

/-! ## The policy -/

/-- The options for the policy are usable. -/
structure HasUsablePolicy (a : Arguments) : Prop where
  parallelism : a.parallelism.Satisfies (1 ≤ ·)
  retries : a.retries.Satisfies (0 ≤ ·)
  timeout : a.timeout.Satisfies fun text ↦ ∃ x, Duration.Writes text x

/-- A policy with the options in the place of its fields. -/
def policyFor (a : Arguments) (p : Policy) : Policy where
  failFast := if a.failFast then true else p.failFast
  parallelism := (a.parallelism.value?.map id).getD p.parallelism
  captureOutput := if a.noCapture then false else p.captureOutput
  timeout := (a.timeout.value?.map fun text ↦ (Amount.parse? text).map Amount.seconds).getD p.timeout
  retries := (a.retries.value?.map id).getD p.retries

theorem get?_policyChanges_failFast (a : Arguments) :
    Entries.get? a.policyChanges.reverse "fail_fast" = if a.failFast then some (.flag true) else none := by
  simp [policyChanges_eq, Entries.get?_append, get?_change]

theorem get?_policyChanges_parallelism (a : Arguments) :
    Entries.get? a.policyChanges.reverse "parallelism" = a.parallelism.toValue? .int := by
  simp [policyChanges_eq, Entries.get?_append, get?_change]

theorem get?_policyChanges_captureOutput (a : Arguments) :
    Entries.get? a.policyChanges.reverse "capture_output" =
      if a.noCapture then some (.flag false) else none := by
  simp [policyChanges_eq, Entries.get?_append, get?_change]

theorem get?_policyChanges_retries (a : Arguments) :
    Entries.get? a.policyChanges.reverse "retries" = a.retries.toValue? .int := by
  simp [policyChanges_eq, Entries.get?_append, get?_change]

theorem key_of_mem_change {name : String} {v? : Option Value} {e : Value × Value}
    (h : e ∈ change name v?) : e.1 = .text name := by
  cases v? with
  | none => cases h
  | some v => rw [List.mem_singleton.1 h]

/-- No option brings a field with it that policies do not have. -/
theorem noOthers_policyChanges (a : Arguments) (es : Entries)
    (h : ∀ e ∈ es, ∃ name ∈ Policy.fieldNames, e.1 = .text name) :
    noOthers (putAll es a.policyChanges) Policy.fieldNames = .ok () := by
  apply noOthers_eq_ok
  apply Entries.forall_putAll (P := fun k ↦ ∃ name ∈ Policy.fieldNames, k = .text name) h
  intro e he
  simp only [policyChanges_eq, List.mem_append] at he
  obtain (((he | he) | he) | he) | he := he <;>
    exact ⟨_, by simp [Policy.fieldNames], key_of_mem_change he⟩

theorem limit_limitValue {p : Policy} (h : p.idleLimit? = none) :
    limit (Policy.limitValue p.timeout) = .ok p.timeout := by
  cases htimeout : p.timeout with
  | none => rfl
  | some x => rw [Policy.limitValue, limit_float, if_neg (Policy.idleLimit?_eq_none.1 h x htimeout)]

/-- The options are put over a policy if they are usable, and then they take the place of its
fields. -/
theorem check_policyOver (checked : c.policy.IsChecked) (hlimit : c.policy.idleLimit? = none)
    {p : Policy} :
    Policy.check (a.policyOver c) = .ok p ↔ a.HasUsablePolicy ∧ a.policyFor c.policy = p := by
  rw [policyOver, Policy.toValue_eq]
  dsimp only
  have hothers := noOthers_policyChanges a [(.text "fail_fast", .flag c.policy.failFast),
    (.text "parallelism", .int c.policy.parallelism), (.text "capture_output", .flag c.policy.captureOutput),
    (.text "timeout", Policy.limitValue c.policy.timeout), (.text "retries", .int c.policy.retries)]
    (by simp [Policy.fieldNames])
  have hget {name : String} {change? : Option Value} (es : Entries)
      (hchange : Entries.get? a.policyChanges.reverse name = change?) :
      (putAll es a.policyChanges).get? name = change?.or (es.get? name) := by
    rw [← hchange]
    exact Entries.get?_putAll (fun _ ↦ exists_name_of_mem_policyChanges) es name
  rw [Policy.check_map_eq_ok,
    flag_field_eq_ok (hget _ (get?_policyChanges_failFast a)),
    Given.field_eq_ok id (hget _ (get?_policyChanges_parallelism a))
      (integerFrom_int checked.parallelism) (by rintro ⟨⟩) fun _ ↦ integerFrom_int_eq_ok,
    flag_field_eq_ok (hget _ (get?_policyChanges_captureOutput a)),
    Given.field_eq_ok _ (hget _ (get?_policyChanges a)) (limit_limitValue hlimit)
      (by rintro ⟨⟩) fun _ ↦ limit_text_eq_ok,
    Given.field_eq_ok id (hget _ (get?_policyChanges_retries a))
      (integerFrom_int checked.retries) (by rintro ⟨⟩) fun _ ↦ integerFrom_int_eq_ok,
    hothers]
  constructor
  · rintro ⟨hfailFast, ⟨hparallelism, hparallelism'⟩, hcapture, ⟨htimeout, htimeout'⟩,
      ⟨hretries, hretries'⟩, -⟩
    refine ⟨⟨hparallelism, hretries, htimeout⟩, ?_⟩
    cases p
    simp only [policyFor, Policy.mk.injEq]
    exact ⟨hfailFast, hparallelism', hcapture, htimeout', hretries'⟩
  · rintro ⟨usable, rfl⟩
    exact ⟨rfl, ⟨usable.parallelism, rfl⟩, rfl, ⟨usable.timeout, rfl⟩, ⟨usable.retries, rfl⟩, rfl⟩

/-! ## Components and settings -/

/-- The names of components that the options give, if they give any. -/
def componentsFor (a : Arguments) (components : List String) : List String :=
  if a.components.isEmpty then components else a.components.filterMap id

theorem exists_names (h : none ∉ a.components) : ∃ names : List String, names.map some = a.components := by
  change a.components ∈ Set.range (List.map some)
  rw [Set.range_list_map]
  intro name? hmem
  apply Option.ne_none_iff_exists.1
  rintro rfl
  exact h hmem

theorem texts_componentsOver {names : List String} :
    texts (a.componentsOver c) = .ok names ↔ none ∉ a.components ∧ a.componentsFor c.components = names := by
  rw [componentsOver, componentsFor]
  split
  · next hempty =>
    rw [texts_list, List.isEmpty_iff.1 hempty]
    simp
  · by_cases hblank : none ∈ a.components
    · -- a blank name is no text
      refine iff_of_false (fun h ↦ ?_) (fun h ↦ h.1 hblank)
      obtain ⟨name, hname⟩ := text_eq_ok_of_texts h (.list []) (List.mem_map.2 ⟨none, hblank, rfl⟩)
      cases hname
    · obtain ⟨given, hgiven⟩ := exists_names hblank
      rw [← hgiven, List.map_map]
      change texts (.list (given.map .text)) = .ok names ↔ _
      rw [texts_list]
      simp

/-- The settings that remain from the configuration: those of its own runner. -/
def settingsUnder (a : Arguments) (c : Config) : List (String × Value) :=
  if (a.otherRunner? c).isSome then [] else c.runnerConfig

theorem runnerConfigOver_eq (a : Arguments) (c : Config) :
    a.runnerConfigOver c = named (a.settingsUnder c) := by
  rw [runnerConfigOver, settingsUnder]
  split <;> rfl

theorem settingsUnder_distinct (checked : c.IsChecked) : Distinct (a.settingsUnder c) := by
  rw [settingsUnder]
  split
  · exact List.nodup_nil
  · exact checked.settings

/-- The settings that the options give are none, or the members of an object. -/
theorem named_of_runnerConfigChanges {es : Entries} (h : a.runnerConfigChanges = .ok es) :
    ∃ settings, Distinct settings ∧ es = named settings := by
  have hnone : ∃ settings, Distinct settings ∧ ([] : Entries) = named settings := ⟨[], List.nodup_nil, rfl⟩
  rw [runnerConfigChanges] at h
  split at h
  · split at h
    · exact Except.ok.inj h ▸ hnone
    · split at h
      · cases h
      · next hread => exact Except.ok.inj h ▸ Data.Json.read_eq_ok_map hread
      · cases h
  · exact Except.ok.inj h ▸ hnone

theorem runnerConfigChanges_ok_iff : (∃ es, a.runnerConfigChanges = .ok es) ↔
    ∀ text, a.runnerConfig = .value text → text ≠ "" → ∃ es, Data.Json.read text = .ok (.map es) := by
  rw [runnerConfigChanges]
  cases a.runnerConfig with
  | absent | blank =>
    refine iff_of_true ⟨[], rfl⟩ ?_
    rintro text ⟨⟩
  | value text =>
    simp only [Given.value.injEq, forall_eq']
    split
    · next hempty => exact iff_of_true ⟨[], rfl⟩ fun hne ↦ absurd hempty hne
    · next hne =>
      rw [imp_iff_right hne]
      split
      · next hread => simp [hread]
      · next es hread => exact iff_of_true ⟨es, rfl⟩ ⟨es, hread⟩
      · next v hmap hread =>
        refine iff_of_false (by simp) ?_
        rintro ⟨es, hes⟩
        exact hmap es (Except.ok.inj (hread.symm.trans hes))

/-! ## The configuration -/

/-- A configuration with the options, and some settings, in the place of its fields. -/
def configFor (a : Arguments) (c : Config) (settings : List (String × Value)) : Config where
  version := c.version
  runner := (a.otherRunner? c).getD c.runner
  runnerConfig := settings.foldl putEntry (a.settingsUnder c)
  components := a.componentsFor c.components
  policy := a.policyFor c.policy

theorem apply_eq_ok (checked : c.IsChecked) (hlimit : c.policy.idleLimit? = none)
    {settings : List (String × Value)} (hsettings : a.runnerConfigChanges = .ok (named settings)) :
    a.apply c = .ok c' ↔ (none ∉ a.components ∧ a.HasUsablePolicy) ∧ a.configFor c settings = c' := by
  have hdistinct := settingsUnder_distinct (a := a) checked
  have hmapping := mapping_map (Distinct.foldl hdistinct settings)
  rw [apply, merged, hsettings, runnerConfigOver_eq]
  simp only [bind, Except.bind]
  rw [putAll_named hdistinct, Data.Json.mapError_eq_ok, Config.validate, verdict_eq_ok,
    Config.check_map_eq_ok, field_of_get? (v := .text c.version) rfl,
    field_of_get? (v := .text ((a.otherRunner? c).getD c.runner)) rfl,
    field_of_get? (v := .map (named (settings.foldl putEntry (a.settingsUnder c)))) rfl,
    field_of_get? (v := a.componentsOver c) rfl, field_of_get? (v := a.policyOver c) rfl]
  simp only [Checked.under_eq_ok, texts_componentsOver, check_policyOver checked.policy hlimit]
  rw [show mapping anything (.map (named _)) = _ from hmapping]
  constructor
  · rintro ⟨hversion, hrunner, hsettings, ⟨hcomponents, hcomponents'⟩, ⟨hpolicy, hpolicy'⟩, -⟩
    refine ⟨⟨hcomponents, hpolicy⟩, ?_⟩
    cases c'
    simp only [configFor, Config.mk.injEq]
    exact ⟨Except.ok.inj hversion, Except.ok.inj hrunner, Except.ok.inj hsettings, hcomponents', hpolicy'⟩
  · rintro ⟨⟨hcomponents, hpolicy⟩, rfl⟩
    exact ⟨rfl, rfl, rfl, ⟨hcomponents, rfl⟩, ⟨hpolicy, rfl⟩, rfl⟩

/-! ## Overriding a configuration -/

/-- Every option that is given can be used. -/
structure IsUsable (a : Arguments) : Prop extends a.HasUsablePolicy where
  components : none ∉ a.components
  settings : ∀ text, a.runnerConfig = .value text → text ≠ "" → ∃ es, Data.Json.read text = .ok (.map es)

/-- What the options give for the runner under a name. -/
def setting? (a : Arguments) (name : String) : Option Value :=
  match a.runnerConfig with
  | .value text => match Data.Json.read text with
    | .ok (.map es) => Entries.get? es name
    | _ => none
  | _ => none

/-- One configuration is another one with the options in the place of its fields. -/
structure Overrides (a : Arguments) (c c' : Config) : Prop where
  version : c'.version = c.version
  components : if a.components = [] then c'.components = c.components
    else c'.components.map some = a.components
  runner : c'.runner = (a.runner.value?.filter (· ≠ "")).getD c.runner
  settings : ∀ name, c'.runnerConfig.lookup name =
    (a.setting? name).or (if c'.runner = c.runner then c.runnerConfig.lookup name else none)
  failFast : c'.policy.failFast = (a.failFast || c.policy.failFast)
  parallelism : c'.policy.parallelism = a.parallelism.value?.getD c.policy.parallelism
  captureOutput : c'.policy.captureOutput = (!a.noCapture && c.policy.captureOutput)
  timeout : match a.timeout.value? with
    | some text => ∃ x, Duration.Writes text x ∧ c'.policy.timeout = some x
    | none => c'.policy.timeout = c.policy.timeout
  retries : c'.policy.retries = a.retries.value?.getD c.policy.retries

theorem setting?_eq {settings : List (String × Value)} (h : a.runnerConfigChanges = .ok (named settings))
    (name : String) : a.setting? name = settings.lookup name := by
  rw [← Data.get?_named]
  rw [runnerConfigChanges] at h
  unfold setting?
  cases ha : a.runnerConfig with
  | absent | blank =>
    rw [ha] at h
    rw [← Except.ok.inj h]
    rfl
  | value text =>
    rw [ha] at h
    dsimp only at h ⊢
    split at h
    · next hempty =>
      rw [← Except.ok.inj h, hempty]
      rfl
    · split at h
      · cases h
      · next hread => rw [hread, Except.ok.inj h]
      · cases h

theorem runner_configFor (a : Arguments) (c : Config) (settings : List (String × Value)) :
    (a.configFor c settings).runner = (a.runner.value?.filter (· ≠ "")).getD c.runner ∧
      ((a.otherRunner? c).isSome = true ↔ (a.configFor c settings).runner ≠ c.runner) := by
  rw [configFor, otherRunner?]
  cases a.runner.value? with
  | none => simp
  | some key =>
    by_cases hempty : key = ""
    · simp [Option.filter, hempty]
    · by_cases hsame : key = c.runner
      · subst hsame
        simp [Option.filter, hempty]
      · simp [Option.filter, hempty, hsame]

theorem lookup_settingsUnder (a : Arguments) (c : Config) (settings : List (String × Value)) (name : String) :
    (a.settingsUnder c).lookup name =
      if (a.configFor c settings).runner = c.runner then c.runnerConfig.lookup name else none := by
  obtain ⟨-, hother⟩ := runner_configFor a c settings
  rw [settingsUnder]
  by_cases hrunner : (a.configFor c settings).runner = c.runner
  · rw [if_pos hrunner, if_neg fun h ↦ hother.1 h hrunner]
  · rw [if_neg hrunner, if_pos (hother.2 hrunner)]
    rfl

theorem componentsFor_map_some (h : none ∉ a.components) (hne : a.components ≠ [])
    (components : List String) : (a.componentsFor components).map some = a.components := by
  obtain ⟨names, hnames⟩ := exists_names h
  rw [componentsFor, if_neg (by simpa using hne), ← hnames]
  simp

theorem overrides_configFor (checked : c.IsChecked) (usable : a.IsUsable)
    {settings : List (String × Value)} (hdistinct : Distinct settings)
    (hsettings : a.runnerConfigChanges = .ok (named settings)) :
    a.Overrides c (a.configFor c settings) := by
  constructor
  case version => rfl
  case components =>
    split
    · next hnone => exact if_pos (List.isEmpty_iff.2 hnone)
    · next hsome => exact componentsFor_map_some usable.components hsome c.components
  case runner => exact (runner_configFor a c settings).1
  case settings =>
    intro name
    rw [← lookup_settingsUnder, setting?_eq hsettings]
    exact Data.lookup_foldl_putEntry (settingsUnder_distinct checked) hdistinct name
  case failFast => cases hon : a.failFast <;> simp [configFor, policyFor, hon]
  case parallelism => simp [configFor, policyFor]
  case captureOutput => cases hoff : a.noCapture <;> simp [configFor, policyFor, hoff]
  case timeout =>
    have htimeout := usable.timeout
    cases hgiven : a.timeout with
    | absent => simp [configFor, policyFor, hgiven, Given.value?]
    | blank =>
      rw [hgiven] at htimeout
      exact htimeout.elim
    | value text =>
      rw [hgiven] at htimeout
      obtain ⟨x, hx⟩ := htimeout
      obtain ⟨amount, hamount, -, rfl⟩ := id hx
      exact ⟨_, hx, by simp [configFor, policyFor, hgiven, Given.value?, hamount]⟩
  case retries => simp [configFor, policyFor]

/-! ## Command lines over files -/

theorem isUsable_iff : a.IsUsable ↔
    (none ∉ a.components ∧ a.HasUsablePolicy) ∧ ∃ es, a.runnerConfigChanges = .ok es := by
  rw [runnerConfigChanges_ok_iff]
  constructor
  · intro usable
    exact ⟨⟨usable.components, usable.toHasUsablePolicy⟩, usable.settings⟩
  · rintro ⟨⟨hcomponents, hpolicy⟩, hsettings⟩
    exact { hpolicy with components := hcomponents, settings := hsettings }

theorem exists_apply_eq_ok_iff (checked : c.IsChecked) (hlimit : c.policy.idleLimit? = none) :
    (∃ c', a.apply c = .ok c') ↔ a.IsUsable := by
  rw [isUsable_iff]
  constructor
  · rintro ⟨c', hc'⟩
    obtain ⟨data, hdata, -⟩ := Data.Json.bind_eq_ok.1 hc'
    obtain ⟨es, hes, -⟩ := Data.Json.bind_eq_ok.1 hdata
    obtain ⟨settings, -, rfl⟩ := named_of_runnerConfigChanges hes
    exact ⟨((apply_eq_ok checked hlimit hes).1 hc').1, _, hes⟩
  · rintro ⟨usable, es, hes⟩
    obtain ⟨settings, -, rfl⟩ := named_of_runnerConfigChanges hes
    exact ⟨_, (apply_eq_ok checked hlimit hes).2 ⟨usable, rfl⟩⟩

theorem overrides_of_apply (checked : c.IsChecked) (hlimit : c.policy.idleLimit? = none)
    (h : a.apply c = .ok c') : a.Overrides c c' := by
  have usable := (exists_apply_eq_ok_iff checked hlimit).1 ⟨c', h⟩
  obtain ⟨-, es, hes⟩ := isUsable_iff.1 usable
  obtain ⟨settings, hdistinct, rfl⟩ := named_of_runnerConfigChanges hes
  obtain ⟨-, rfl⟩ := (apply_eq_ok checked hlimit hes).1 h
  exact overrides_configFor checked usable hdistinct hes

/-- A command line gives a configuration if and only if every option that is given can be used; then
the options, and nothing else, take the place of what the file gives.  Otherwise an error of the
configuration is reported, unless the settings hold an integer that is too long to be read. -/
theorem configuration_overrides {asked : Option Path} (hfile : a.file? = .ok asked) {note : Note}
    (h : Config.resolve files asked = .ok (c, note)) (hlimit : ∀ x, c.policy.timeout = some x → 0 < x) :
    ((∃ c', (a.configuration files).2 = .ok c') ↔ a.IsUsable) ∧
      (∀ c', (a.configuration files).2 = .ok c' → a.Overrides c c') ∧
      (¬a.HasLongInteger → ¬a.IsUsable →
        ∃ e, (a.configuration files).2 = .error e ∧ e.isReported = true) := by
  have checked := Config.isChecked_of_resolve h
  have hidle : c.policy.idleLimit? = none := Policy.idleLimit?_eq_none.2 fun x hx ↦
    not_le_of_lt isInstant_zero (hlimit x hx)
  have happly : (a.configuration files).2 = a.apply c := by
    rw [configuration, hfile]
    simp only [h]
  rw [happly]
  refine ⟨exists_apply_eq_ok_iff checked hidle, fun c' hc' ↦ overrides_of_apply checked hidle hc', ?_⟩
  intro hshort hunusable
  cases hresult : a.apply c with
  | ok c' => exact absurd ((exists_apply_eq_ok_iff checked hidle).1 ⟨c', hresult⟩) hunusable
  | error e =>
    refine ⟨e, rfl, ?_⟩
    by_contra hsilent
    apply hshort
    exact apply_unreported_iff.1 ⟨e, hresult, by simpa using hsilent⟩

/-- What it means to leave the name of a component blank. -/
def blankComponent : Arguments where
  components := [none]

/-- A command line that leaves the name of a component blank gives no configuration, though nothing
else about it is wrong. -/
theorem configuration_blank_component :
    parse ["--component=--"] = .ok blankComponent ∧ blankComponent.file? = .ok none ∧
      Config.resolve { file? _ := none, isDirectory _ := true } none =
        .ok (.default, Config.defaultNote) ∧
      Config.default.policy.timeout = none ∧ blankComponent.HasUsablePolicy ∧
      blankComponent.runnerConfig = .absent ∧
      ((blankComponent.configuration { file? _ := none, isDirectory _ := true }).2 matches
        .error (.flawed "HarnessConfig" [⟨[.name "components", .index 0], .notText⟩])) :=
  ⟨by decide +kernel, rfl, rfl, rfl, ⟨trivial, trivial, trivial⟩, rfl, by decide +kernel⟩

/-- Another runner with its settings, half a second for each attempt, and two more attempts. -/
def impatient : Arguments where
  components := [some "db"]
  runner := .value "command"
  runnerConfig := .value "\x7b\"command\": [\"tool\"], \"cwd\": \"src\"\x7d"
  timeout := .value "500ms"
  retries := .value 2

theorem impatient_isUsable : impatient.IsUsable where
  components := by decide
  parallelism := trivial
  retries := show (0 : Int) ≤ 2 by decide
  timeout := ⟨_, ⟨['5', '0', '0'], [], .milliseconds⟩, by decide +kernel, by decide +kernel, rfl⟩
  settings := by
    rintro text h -
    obtain rfl := Given.value.inj h
    have hread : (Data.Json.read "\x7b\"command\": [\"tool\"], \"cwd\": \"src\"\x7d" matches .ok (.map _)) = true := by
      decide +kernel
    split at hread
    · next es hes => exact ⟨es, hes⟩
    · cases hread

/-- A file with settings for cargo and four components at a time. -/
def fourfold : Files where
  file? _ := some "runner_config: \x7bcargo_path: c\x7d\npolicy: \x7bparallelism: 4, timeout: 90\x7d".toUTF8.toList
  isDirectory _ := true

theorem configuration_overrides_impatient :
    parse ["--component", "db", "--runner=command", "--runner-config",
        "\x7b\"command\": [\"tool\"], \"cwd\": \"src\"\x7d", "--timeout", "500ms", "--retries", "2"] = .ok impatient ∧
      ∃ c note c', impatient.file? = .ok none ∧ Config.resolve fourfold none = .ok (c, note) ∧
      (∀ x, c.policy.timeout = some x → 0 < x) ∧ (impatient.configuration fourfold).2 = .ok c' ∧
      impatient.Overrides c c' := by
  obtain ⟨c, note, hresolve, hlimit⟩ : ∃ c note, Config.resolve fourfold none = .ok (c, note) ∧
      ∀ x, c.policy.timeout = some x → 0 < x := by
    have h : ((Config.resolve fourfold none).toOption.any fun (c, _) ↦
        c.policy.timeout.all fun x ↦ 0 < x) = true := by decide +kernel
    cases hresolve : Config.resolve fourfold none with
    | error e =>
      rw [hresolve] at h
      cases h
    | ok resolved =>
      refine ⟨resolved.1, resolved.2, rfl, ?_⟩
      intro x hx
      rw [hresolve] at h
      have hall : (resolved.1.policy.timeout.all fun x ↦ decide (0 < x)) = true := h
      rw [hx] at hall
      exact of_decide_eq_true hall
  obtain ⟨hsuccess, hoverrides, -⟩ := configuration_overrides (a := impatient) rfl hresolve hlimit
  obtain ⟨c', hc'⟩ := hsuccess.2 impatient_isUsable
  exact ⟨by decide +kernel, c, note, c', rfl, hresolve, hlimit, hc', hoverrides c' hc'⟩

end Arguments

end Testbed.CommandLine

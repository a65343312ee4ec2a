import Testbed.Proofs.Config.Defects
import Testbed.Proofs.Registry
import Testbed.Proofs.Run.Processes
import Testbed.Session.Basic

/-!
# What stands in the way of tests

The tests of a configuration need a usable registry, a runner under the key, settings that the runner
accepts, its program, and the directory in which it works.  Whatever is missing is found before the
tests and reported as an obstacle; no configuration ends in a fault for it.
-/

namespace Testbed

open Data (Value Entries)
open Validation

/-! ## Settings of runners -/

namespace Validation

variable {α : Type} {d : Defect} {e : Duration.Error}

@[simp]
theorem finds_requiredField {es : Entries} {name : String} {check : Value → Checked α} :
    (requiredField es name check).Finds d ↔
      es.get? name = none ∧ d = .missing ∨ ∃ v, es.get? name = some v ∧ (check v).Finds d := by
  unfold requiredField
  cases es.get? name <;> simp [eq_comm]

theorem path_finds (v : Value) : ¬ (path v).Finds (.badDuration e) := by
  unfold path
  split <;> simp

theorem optional_finds {check : Value → Checked α} (hcheck : ∀ v, ¬ (check v).Finds (.badDuration e))
    (v : Value) : ¬ (optional check v).Finds (.badDuration e) := by
  unfold optional
  split
  · simp
  · rw [Checked.finds_map]
    exact hcheck _

theorem someTexts_finds (v : Value) : ¬ (someTexts v).Finds (.badDuration e) := by
  unfold someTexts
  split
  · simp
  · exact texts_finds v

end Validation

theorem ToolKind.check_finds (kind : ToolKind) (es : Entries) (e : Duration.Error) :
    ¬ (kind.check es).Finds (.badDuration e) := by
  cases kind <;>
    simp [ToolKind.check, Cargo.check, Command.check, text_finds, path_finds, texts_finds,
      someTexts_finds, mapping_finds text_finds, optional_finds path_finds]

/-- Settings of a runner hold no duration that could overflow. -/
theorem ToolKind.configure_ne_overflow (kind : ToolKind) (settings : List (String × Value)) :
    kind.configure settings ≠ .error .overflow :=
  fun h ↦ kind.check_finds _ _ (verdict_overflow.1 h)

/-! ## Runners -/

/-- A line of the log that tells of no failure. -/
inductive Note.IsLine : Note → Prop
  | mk (level : Level) (channel : Channel) (text : String) : IsLine (.log { level, channel, text })

/-- No installed runner fails to load. -/
theorem Catalogue.lookup_installed_ne_broken (key : String) (f : Failure) :
    installed.lookup key ≠ .error (.broken f) := by
  rw [lookup_eq]
  split
  · next published h =>
    have hmem := List.mem_of_find?_eq_some h
    simp only [installed, List.mem_cons, Prod.mk.injEq, List.not_mem_nil, or_false] at hmem
    obtain ⟨-, rfl⟩ | ⟨-, rfl⟩ := hmem <;> exact nofun
  · exact nofun

namespace Configured

variable {c : Configured} {around : Surroundings}

/-- The tool that a configured runner is, with its program where it is installed. -/
def tool (c : Configured) (executable : String) : Tool :=
  match c with
  | .cargo c => c.tool executable
  | .command c => c.tool executable

theorem tool_logsEnds (c : Configured) (executable : String) : (c.tool executable).LogsEnds := by
  cases c with
  | cargo c => exact c.tool_logsEnds executable
  | command c => exact c.tool_logsEnds executable

/-- A runner can be made if its program is installed and its directory is there. -/
theorem prepare_of_present {executable : String} (hprogram : around.program c.program = some executable)
    (hdirectory : ∀ p ∈ c.directory?, around.files.isDirectory p = true) :
    ∃ notes, c.prepare around = .ok (notes, c.tool executable) ∧ ∀ n ∈ notes, n.IsLine := by
  cases c with
  | cargo c =>
    refine ⟨[.debug .cargo ("Using cargo at " ++ executable ++ " in " ++ c.workspace.text)], ?_,
      fun n hn ↦ List.mem_singleton.1 hn ▸ .mk _ _ _⟩
    simp only [prepare, Cargo.prepare]
    rw [show around.program c.program = _ from hprogram]
    exact if_pos (hdirectory c.workspace rfl)
  | command c =>
    refine ⟨[], ?_, nofun⟩
    simp only [prepare, Command.prepare]
    rw [show around.program c.program = _ from hprogram]
    dsimp only
    cases hdir : c.directory with
    | none => rfl
    | some p => exact if_pos (hdirectory p hdir)

theorem prepare_of_no_program (h : around.program c.program = none) :
    ∃ e, c.prepare around = .error e := by
  cases c with
  | cargo c =>
    simp only [prepare, Cargo.prepare]
    rw [show around.program c.program = none from h]
    exact ⟨_, rfl⟩
  | command c =>
    simp only [prepare, Command.prepare]
    rw [show around.program c.program = none from h]
    exact ⟨_, rfl⟩

theorem prepare_of_no_directory {p : Path} (hp : c.directory? = some p)
    (h : around.files.isDirectory p = false) : ∃ e, c.prepare around = .error e := by
  cases hprogram : around.program c.program with
  | none => exact prepare_of_no_program hprogram
  | some executable =>
    cases c with
    | cargo c =>
      obtain rfl : c.workspace = p := Option.some_inj.1 hp
      simp only [prepare, Cargo.prepare]
      rw [show around.program c.program = _ from hprogram]
      exact ⟨_, if_neg (by simp [h])⟩
    | command c =>
      simp only [prepare, Command.prepare]
      rw [show around.program c.program = _ from hprogram, show c.directory = some p from hp]
      exact ⟨_, if_neg (by simp [h])⟩

end Configured

/-! ## Obstacles -/

/-- The registry of a configuration cannot be used. -/
inductive Config.Unlistable (c : Config) : Prop
  | empty (h : c.components = [])
  | blank {name : String} (mem : name ∈ c.components) (h : Text.isBlankText name = true)
  | repeated (h : ¬ c.components.Nodup)

/-- Something that the tests of a configuration need is missing. -/
inductive Config.Unready (c : Config) (around : Surroundings) : Prop
  | unlistable (h : c.Unlistable)
  /-- There is no usable runner under the key. -/
  | unavailable (h : ∀ usable, Catalogue.installed.lookup c.runner ≠ .ok usable)
  /-- The runner does not accept its settings. -/
  | misconfigured {usable : Usable} (lookup : Catalogue.installed.lookup c.runner = .ok usable)
    (h : ∀ configured, usable.settings.configure c.runnerConfig ≠ .ok configured)
  | noProgram {usable : Usable} {configured : Configured}
    (lookup : Catalogue.installed.lookup c.runner = .ok usable)
    (configure : usable.settings.configure c.runnerConfig = .ok configured)
    (h : around.program configured.program = none)
  | noDirectory {usable : Usable} {configured : Configured} {p : Path}
    (lookup : Catalogue.installed.lookup c.runner = .ok usable)
    (configure : usable.settings.configure c.runnerConfig = .ok configured)
    (directory : configured.directory? = some p) (h : around.files.isDirectory p = false)

namespace Config

variable {c : Config} {around : Surroundings}

theorem list_registry_ok (h : ¬ c.Unlistable) : c.registry.list = .ok c.components := by
  refine Registry.list_eq_ok_iff.2 ⟨rfl, fun hempty ↦ h (.empty hempty), fun name hname ↦ ?_, ?_⟩
  · by_contra hblank
    exact h (.blank hname (by simpa using hblank))
  · rw [Registry.repeated_eq_nil]
    by_contra hrepeated
    exact h (.repeated hrepeated)

theorem Unlistable.list (h : c.Unlistable) : ∃ e, c.registry.list = .error e := by
  cases hlist : c.registry.list with
  | error e => exact ⟨e, rfl⟩
  | ok names =>
    obtain ⟨-, hne, hblank, -⟩ := Registry.list_eq_ok_iff.1 hlist
    cases h with
    | empty h => exact absurd h hne
    | blank mem h => exact absurd (hblank _ mem) (by simp [h])
    | repeated h =>
      obtain ⟨rfl, -⟩ := Registry.list_eq_ok_iff.1 hlist
      exact absurd (Registry.nodup_of_list hlist) h

/-- A configuration is ready, or an obstacle is found in its way. -/
theorem findTool_of_ready (h : ¬ c.Unready around) : ∃ notes configured executable,
    c.findTool around = .ok (notes, Configured.tool configured executable) ∧
      ∀ n ∈ notes, n.IsLine := by
  rw [findTool]
  cases hlookup : Catalogue.installed.lookup c.runner with
  | error e => exact absurd (.unavailable fun usable ↦ by simp [hlookup]) h
  | ok usable =>
    dsimp only
    cases hconfigure : usable.settings.configure c.runnerConfig with
    | error e => exact absurd (.misconfigured hlookup fun configured ↦ by simp [hconfigure]) h
    | ok configured =>
      dsimp only
      cases hprogram : around.program configured.program with
      | none => exact absurd (.noProgram hlookup hconfigure hprogram) h
      | some executable =>
        obtain ⟨notes, hprepare, hnotes⟩ := Configured.prepare_of_present hprogram fun p hp ↦ by
          by_contra hdirectory
          exact h (.noDirectory hlookup hconfigure hp (by simpa using hdirectory))
        exact ⟨notes, configured, executable, by rw [hprepare]; rfl, hnotes⟩

/-- A configuration that is not ready has an obstacle in its way. -/
theorem Unready.findTool (h : c.Unready around) (hlist : ¬ c.Unlistable) :
    ∃ o, c.findTool around = .error (.obstacle o) := by
  rw [Config.findTool]
  cases hlookup : Catalogue.installed.lookup c.runner with
  | error e =>
    cases e with
    | broken failure => exact absurd hlookup (Catalogue.lookup_installed_ne_broken _ _)
    | notFound | notManifest | noModel | noFactory => exact ⟨_, rfl⟩
  | ok usable =>
    dsimp only
    cases hconfigure : usable.settings.configure c.runnerConfig with
    | error e =>
      cases e with
      | flawed model issues => exact ⟨_, rfl⟩
      | overflow => exact absurd hconfigure (usable.settings.configure_ne_overflow _)
    | ok configured =>
      have hprepare (h : ∃ e, configured.prepare around = .error e) :
          ∃ o, (configured.prepare around).mapError (fun e ↦ Conclusion.obstacle (.unavailable e)) =
            .error (.obstacle o) := by
        obtain ⟨e, he⟩ := h
        exact ⟨_, by rw [he]; rfl⟩
      cases h with
      | unlistable h => exact absurd h hlist
      | unavailable h => exact absurd hlookup (h usable)
      | misconfigured lookup h =>
        obtain rfl := Except.ok.inj (hlookup.symm.trans lookup)
        exact absurd hconfigure (h configured)
      | noProgram lookup configure h =>
        obtain rfl := Except.ok.inj (hlookup.symm.trans lookup)
        obtain rfl := Except.ok.inj (hconfigure.symm.trans configure)
        exact hprepare (Configured.prepare_of_no_program h)
      | noDirectory lookup configure directory h =>
        obtain rfl := Except.ok.inj (hlookup.symm.trans lookup)
        obtain rfl := Except.ok.inj (hconfigure.symm.trans configure)
        exact hprepare (Configured.prepare_of_no_directory directory h)

theorem plan_of_ready (h : ¬ c.Unready around) : ∃ notes configured executable,
    c.plan around = (notes, .ok ⟨c.components, Configured.tool configured executable⟩) ∧
      ∀ n ∈ notes, n.IsLine := by
  obtain ⟨more, configured, executable, htool, hmore⟩ := findTool_of_ready h
  refine ⟨_, configured, executable, by
    rw [plan, list_registry_ok fun hlist ↦ h (.unlistable hlist), htool], fun n hn ↦ ?_⟩
  obtain hn | hn := List.mem_append.1 hn
  · obtain rfl | rfl : n = _ ∨ n = _ := by simpa using hn
    · exact .mk _ _ _
    · exact .mk _ _ _
  · exact hmore n hn

theorem Unready.plan (h : c.Unready around) : ∃ notes o,
    c.plan around = (notes, .error (.obstacle o)) ∧ ∀ n ∈ notes, n.IsLine := by
  by_cases hlist : c.Unlistable
  · obtain ⟨e, he⟩ := hlist.list
    exact ⟨[], .registry e, by rw [Config.plan, he], nofun⟩
  · obtain ⟨o, ho⟩ := h.findTool hlist
    refine ⟨_, o, by rw [Config.plan, list_registry_ok hlist, ho], fun n hn ↦ ?_⟩
    obtain rfl | rfl : n = _ ∨ n = _ := by simpa using hn
    · exact .mk _ _ _
    · exact .mk _ _ _

end Config

end Testbed

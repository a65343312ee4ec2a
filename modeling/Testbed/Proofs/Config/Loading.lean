import Testbed.CommandLine.Overrides
import Testbed.Proofs.Config.Defects
import Testbed.Proofs.Config.Validation
import Testbed.Session.Basic

/-!
# Configurations in files

What reading a configuration file guarantees, and the contents that it is not prepared for: bytes
that are no text, scalars that have no value, and an integer duration beyond the doubles.
-/

namespace Testbed.Config

variable {files : Files} {path : Path} {c : Config}

theorem isChecked_of_ofText {text : String} (h : ofText path text = .ok c) : c.IsChecked := by
  unfold ofText at h
  split at h
  · cases h
  · cases h
  · cases h
  · split at h
    · next hvalid =>
      obtain rfl := Except.ok.inj h
      exact isChecked_of_validate hvalid
    · cases h
    · cases h
  · cases h

theorem isChecked_of_load (h : load files path = .ok c) : c.IsChecked := by
  unfold load at h
  split at h
  · cases h
  · split at h
    · cases h
    · exact isChecked_of_ofText h

/-- The file that is read if the given one, or none, is asked for. -/
def source? (files : Files) (asked : Option Path) : Option Path :=
  asked <|> if (files.file? usualFile).isSome then some usualFile else none

theorem resolve_eq (files : Files) (asked : Option Path) : resolve files asked =
    match source? files asked with
    | some path => (load files path).map fun c ↦ (c, loadedNote path)
    | none => .ok (default, defaultNote) := by
  unfold resolve
  rw [← source?]
  cases source? files asked with
  | none => rfl
  | some path => cases load files path <;> rfl

theorem isChecked_of_resolve {asked : Option Path} {note : Note}
    (h : resolve files asked = .ok (c, note)) : c.IsChecked := by
  rw [resolve_eq] at h
  split at h
  · next path _ =>
    cases hload : load files path with
    | error e =>
      rw [hload] at h
      cases h
    | ok c' =>
      rw [hload] at h
      cases h
      exact isChecked_of_load hload
  · cases h
    exact isChecked_default

/-! ## Contents that are not expected -/

/-- The text of a file has a meaning that no check is prepared for. -/
def UnexpectedText (text : String) : Prop :=
  (∃ fault ≠ .malformed, Data.Yaml.read (Text.normalizeNewlines text.toList) = .error fault) ∨
    ∃ v, Data.Yaml.read (Text.normalizeNewlines text.toList) = .ok v ∧ Overflows v

/-- The contents of a file are no text, or one that is not expected. -/
def Unexpected (bytes : List UInt8) : Prop :=
  (∃ part, Text.decode bytes = .error part) ∨ ∃ text, Text.decode bytes = .ok text ∧ UnexpectedText text

/-- The error of a file is not reported as an error of the configuration. -/
def LoadError.IsUnreported (e : LoadError) : Prop :=
  (CommandLine.OptionsError.load e).isReported = false

theorem validated_unreported_iff (entries : Data.Entries) : (∃ e, (match validate (.map entries) with
    | .ok config => .ok config
    | .error (.flawed model issues) => .error (.flawed path model issues)
    | .error .overflow => .error .overflow : Except LoadError Config) = .error e ∧
      e.IsUnreported) ↔ Overflows (.map entries) := by
  rw [← validate_overflow_iff]
  split
  · next h => simp [h]
  · next h => simp [h, LoadError.IsUnreported, CommandLine.OptionsError.isReported]
  · next h => simp [h, LoadError.IsUnreported, CommandLine.OptionsError.isReported]

theorem ofText_unreported_iff {text : String} :
    (∃ e, ofText path text = .error e ∧ e.IsUnreported) ↔ UnexpectedText text := by
  unfold ofText UnexpectedText
  cases Data.Yaml.read (Text.normalizeNewlines text.toList) with
  | error fault =>
    cases fault <;> simp [LoadError.IsUnreported, CommandLine.OptionsError.isReported]
  | ok v =>
    cases v with
    | map entries => exact (validated_unreported_iff entries).trans (by simp)
    | null | flag | int | float | text | bytes | date | moment | list | set =>
      simp [LoadError.IsUnreported, CommandLine.OptionsError.isReported, Overflows]

/-- Reading a file fails with an error that is not reported exactly if its contents are not
expected. -/
theorem load_unreported_iff : (∃ e, load files path = .error e ∧ e.IsUnreported) ↔
    ∃ bytes, files.file? path = some bytes ∧ Unexpected bytes := by
  unfold load
  cases files.file? path with
  | none => simp [LoadError.IsUnreported, CommandLine.OptionsError.isReported]
  | some bytes =>
    simp only [Option.some.injEq, exists_eq_left', Unexpected]
    cases Text.decode bytes with
    | error part => simp [LoadError.IsUnreported, CommandLine.OptionsError.isReported]
    | ok text => simp [ofText_unreported_iff]

end Testbed.Config

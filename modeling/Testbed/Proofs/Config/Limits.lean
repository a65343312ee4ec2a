import Testbed.Proofs.Clock.Durations
import Testbed.Proofs.Config.Validation

/-!
# Limits of accepted policies

A policy that is accepted tests at least one component at a time and makes no negative number of
further attempts.  Its time limit is positive, with three exceptions: the flag that is off, a double
that is not a number, and bytes, whose number is not compared with zero.
-/

namespace Testbed

open Clock
open Data (Value Entries)
open Validation

namespace Validation

/-- A time limit that is accepted although it is not positive, in the form in which it is given. -/
inductive Unchecked : Value → Float → Prop
  | flag : Unchecked (.flag false) 0.0
  | notANumber {x : Float} (h : x.isNaN = true) : Unchecked (.float x) x
  | bytes {b : List UInt8} {s : String} {x : Float} (hs : Text.decode? b = some s)
    (hx : numberOfText s = .ok x) (h : ¬0 < x) : Unchecked (.bytes b) x

variable {given : Value} {x : Float}

theorem Unchecked.not_positive (h : Unchecked given x) : ¬0 < x := by
  cases h with
  | flag => decide +kernel
  | notANumber hnan => exact (not_lt_of_isNaN hnan 0).2
  | bytes _ _ h => exact h

theorem Unchecked.limit_eq (h : Unchecked given x) : limit given = .ok (some x) := by
  cases h with
  | flag => rfl
  | notANumber hnan => rw [limit_float, if_neg (not_le_of_isNaN hnan 0).1]
  | bytes hs hx h =>
    rw [limit, hs]
    exact Checked.map_eq_ok.2 ⟨_, hx, rfl⟩

/-- A duration that is accepted is positive or given as what is not a number. -/
theorem positive_of_duration (duration : Duration.Given) (h : (match Duration.parse duration with
    | .ok x => .ok (some x)
    | .error e => reject (.badDuration e) : Checked (Option Float)) = .ok (some x)) :
    0 < x ∨ duration = .real x ∧ x.isNaN = true := by
  split at h
  · next hparse =>
    obtain rfl := Option.some_inj.1 (Except.ok.inj h)
    exact Duration.positive_of_parse hparse
  · cases h

/-- A time limit that is accepted is positive, or given in a form in which it need not be. -/
theorem positive_or_unchecked (h : limit given = .ok (some x)) : 0 < x ∨ Unchecked given x := by
  cases given with
  | flag b =>
    obtain rfl := Option.some_inj.1 (Except.ok.inj h)
    cases b with
    | true => exact .inl (by decide +kernel)
    | false => exact .inr .flag
  | int n =>
    obtain hpositive | ⟨hreal, -⟩ := positive_of_duration (.whole n) h
    · exact .inl hpositive
    · cases hreal
  | float y =>
    obtain hpositive | ⟨hreal, hnan⟩ := positive_of_duration (.real y) h
    · exact .inl hpositive
    · cases hreal
      exact .inr (.notANumber hnan)
  | text s =>
    obtain hpositive | ⟨hreal, -⟩ := positive_of_duration (.text s) h
    · exact .inl hpositive
    · cases hreal
  | bytes b =>
    by_cases hpositive : 0 < x
    · exact .inl hpositive
    · rw [limit] at h
      split at h
      · next s hs =>
        obtain ⟨y, hy, heq⟩ := Checked.map_eq_ok.1 h
        obtain rfl := Option.some_inj.1 heq
        exact .inr (.bytes hs hy hpositive)
      · cases h
  | null | date | moment | list | map | set => cases h

/-- The exceptions are all there are: a limit is given in one of their forms if and only if it is
accepted and not positive. -/
theorem unchecked_iff : Unchecked given x ↔ limit given = .ok (some x) ∧ ¬0 < x := by
  constructor
  · exact fun h ↦ ⟨h.limit_eq, h.not_positive⟩
  · rintro ⟨hlimit, hpositive⟩
    exact (positive_or_unchecked hlimit).resolve_left hpositive

end Validation

namespace Policy

variable {v : Value} {p : Policy}

/-- An accepted policy can be run, and its time limit is positive unless it was given in a form in
which it need not be. -/
theorem limits_of_validate (h : validate v = .ok p) : p.IsChecked ∧ ∃ es, v = .map es ∧
    ∀ x, p.timeout = some x →
      (0 < x ↔ ∀ given, Entries.get? es "timeout" = some given → ¬Unchecked given x) := by
  have hcheck := verdict_eq_ok.1 h
  refine ⟨isChecked_of_check hcheck, ?_⟩
  cases v with
  | map es =>
    refine ⟨es, rfl, ?_⟩
    intro x hx
    obtain ⟨-, -, -, htimeout, -, -⟩ := check_map_eq_ok.1 hcheck
    obtain hnone | ⟨given, hgiven, hlimit⟩ := field_eq_ok htimeout
    · cases hx.symm.trans hnone
    · rw [hx] at hlimit
      constructor
      · intro hpositive given' _ hunchecked
        exact hunchecked.not_positive hpositive
      · intro hnone
        exact (positive_or_unchecked hlimit).resolve_right (hnone given hgiven)
  | null | flag | int | float | text | bytes | date | moment | list | set => cases hcheck

end Policy

end Testbed

import Testbed.Duration
import Testbed.Proofs.Clock.Instant

/-!
# Durations on the clock

An amount of time that is written with digits is an instant, whatever it is rounded to.  So a text is
a duration if and only if it writes an amount that is later than zero.
-/

open Float.Model (Format UnpackedFloat)
open Float.Model.UnpackedFloat

namespace Testbed

namespace Clock

/-! ## Doubles without a sign -/

/-- A double that is a number and has no minus sign. -/
inductive Unsigned : UnpackedFloat → Prop
  | infinity : Unsigned (.infinity .positive)
  | zero : Unsigned (.zero .positive)
  | finite (m : Nat) (e : Int) (hm : 0 < m) : Unsigned (.finite .positive m e hm)

theorem IsInstant.unsigned {x : Float} (h : IsInstant x) : Unsigned x.toModel.unpack := by
  rw [Float.Model.unpack]
  obtain ⟨hx, -⟩ | ⟨hx, -⟩ | ⟨m, e, hm, hx, -⟩ := unpack_of_le (b := x.toModel.toBits.toBitVec) h
  · exact hx ▸ .infinity
  · exact hx ▸ .zero
  · exact hx ▸ .finite m e hm

/-- Packing adds no minus sign. -/
theorem Unsigned.toNat_pack_le {u : UnpackedFloat} (h : Unsigned u) :
    (UnpackedFloat.pack Format.binary64 u).toNat ≤ 2047 * 2 ^ 52 := by
  cases h with
  | infinity => exact Nat.le_refl _
  | zero => exact Nat.zero_le _
  | finite m e hm =>
    -- the exponent of a finite double is below that of infinity
    simp only [UnpackedFloat.pack]
    split
    · exact Nat.le_refl _
    · split <;>
      · rw [toNat_packComponents]
        simp [Sign.toBitVec] at *
        omega

/-- A product of magnitudes is one, unless infinity meets zero. -/
theorem Unsigned.mul {u : UnpackedFloat} (h : Unsigned u) {n : Nat} {f : Int} (hn : 0 < n) :
    Unsigned (UnpackedFloat.mul Format.binary64 u (.finite .positive n f hn)) := by
  cases h with
  | infinity => exact .infinity
  | zero => exact .zero
  | finite m e hm =>
    rw [UnpackedFloat.mul, roundWithAccuracy]
    dsimp only
    split
    · exact .zero
    · exact .finite _ _ _

/-- An instant times a positive double is an instant. -/
theorem isInstant_mul {a b : Float} (ha : IsInstant a) {n : Nat} {f : Int} {hn : 0 < n}
    (hb : b.toModel.unpack = .finite .positive n f hn) : IsInstant (a * b) := by
  have hle := (ha.unsigned.mul (f := f) hn).toNat_pack_le
  rw [← hb] at hle
  exact hle

/-! ## Order -/

/-- Among numbers, what is not before or at an instant is after it. -/
theorem lt_iff_not_le {t x : Float} (ht : IsInstant t) (hnan : x.isNaN = false) : t < x ↔ ¬x ≤ t := by
  by_cases hx : IsInstant x
  · rw [lt_iff_tick ht hx, le_iff_tick hx ht, Nat.not_le]
  · have hle : x ≤ t := by
      by_contra hlate
      exact hx (isInstant_of_not_le ht hlate hnan)
    refine iff_of_false ?_ (not_not_intro hle)
    rw [lt_def]
    have hunsigned := ht.unsigned
    generalize t.toModel.unpack = u at hunsigned
    obtain hux | hux | hux | ⟨n, f, hn, hux⟩ :=
      unpack_of_lt (b := x.toModel.toBits.toBitVec) (Nat.lt_of_not_le hx)
    all_goals
      rw [Float.Model.unpack, hux]
      cases hunsigned <;> simp [UnpackedFloat.compare]

theorem not_le_of_lt {t x : Float} (ht : IsInstant t) (h : t < x) : ¬x ≤ t := by
  apply (lt_iff_not_le ht _).1 h
  by_contra hnan
  exact (not_lt_of_isNaN (by simpa using hnan) t).2 h

end Clock

open Clock

/-! ## Negation -/

theorem Clock.isNaN_unpack_packComponents (s : Sign) {e : BitVec Format.binary64.exponentBits}
    (h : e ≠ -1#_) (m : BitVec Format.binary64.mantissaBitsWithoutImplicit) :
    (UnpackedFloat.unpack Format.binary64 (packComponents Format.binary64 s e m)).isNaN = false := by
  rw [UnpackedFloat.unpack]
  simp only [unpackExponent_packComponents, unpackMantissa_packComponents, if_neg h]
  split
  · split <;> rfl
  · rfl

/-- What is packed as a number is unpacked as one. -/
theorem Clock.isNaN_unpack_pack {u : UnpackedFloat} (h : u.isNaN = false) :
    (UnpackedFloat.unpack Format.binary64 (UnpackedFloat.pack Format.binary64 u)).isNaN = false := by
  cases u with
  | notANumber => cases h
  | infinity s => cases s <;> rfl
  | zero s => cases s <;> rfl
  | finite s m e hm =>
    simp only [UnpackedFloat.pack]
    split
    · cases s <;> rfl
    · next hsmall =>
      split
      · apply isNaN_unpack_packComponents
        rw [ne_eq, ← BitVec.toNat_inj]
        simp at *
        omega
      · exact isNaN_unpack_packComponents s (by decide) _

theorem Clock.isNaN_neg {x : Float} (h : x.isNaN = false) : (-x).isNaN = false := by
  have hneg : (UnpackedFloat.neg x.toModel.unpack).isNaN = false := by
    have hx : x.toModel.unpack.isNaN = false := h
    revert hx
    cases x.toModel.unpack <;> exact id
  exact isNaN_unpack_pack hneg

/-! ## Amounts -/

theorem Decimal.isInstant_nearest (num den : Nat) : IsInstant (nearest num den) := by
  have hbits : nearestBits num den ≤ 2047 * 2 ^ 52 := nearestBits_le num den
  have hle : (UInt64.ofNat (nearestBits num den)).toBitVec.toNat ≤ 2047 * 2 ^ 52 := by
    apply Nat.le_trans (Nat.mod_le _ _) hbits
  exact (toNat_pack_unpack hle).trans_le hle

theorem Decimal.isInstant_nearestScaled (mantissa : Nat) (exponent : Int) :
    IsInstant (nearestScaled mantissa exponent) := by
  unfold nearestScaled
  dsimp only
  split
  · exact isInstant_nearest _ _
  · split <;> exact isInstant_nearest _ _

theorem TimeUnit.unpack_factor (unit : TimeUnit) :
    ∃ n f hn, unit.factor.toModel.unpack = .finite .positive n f hn := by
  cases unit <;> exact ⟨_, _, _, rfl⟩

theorem Amount.isInstant_seconds (a : Amount) : IsInstant a.seconds := by
  obtain ⟨n, f, hn, hfactor⟩ := a.unit.unpack_factor
  exact isInstant_mul (Decimal.isInstant_nearestScaled _ _) hfactor

theorem Decimal.isNaN_nearestInt (n : Int) : (nearestInt n).isNaN = false := by
  have hmagnitude := (isInstant_nearest n.natAbs 1).not_isNaN
  unfold nearestInt
  dsimp only
  split
  · exact isNaN_neg hmagnitude
  · exact hmagnitude

/-! ## Positive durations -/

/-- A text writes an amount of time that is positive. -/
def Duration.Writes (text : String) (x : Float) : Prop :=
  ∃ a, Amount.parse? text = some a ∧ 0 < a.seconds ∧ x = a.seconds

/-- A text is a duration if it writes a positive amount of time. -/
theorem Duration.parse_text_eq_ok {text : String} {x : Float} :
    parse (.text text) = .ok x ↔ Duration.Writes text x := by
  simp only [parse, Given.seconds, Writes]
  cases hparse : Amount.parse? text with
  | none => simp [bind, Except.bind]
  | some a =>
    simp only [Option.some.injEq, exists_eq_left', bind, Except.bind]
    rw [lt_iff_not_le isInstant_zero a.isInstant_seconds.not_isNaN]
    split
    · next hle => simp [hle]
    · next hle => simp [hle, eq_comm]

/-- Only a double can mean what is not a number. -/
theorem Duration.Given.eq_real_of_isNaN {given : Given} {x : Float} (h : given.seconds = .ok x)
    (hnan : x.isNaN = true) : given = .real x := by
  cases given with
  | flag b =>
    obtain rfl := Except.ok.inj h
    cases b <;> exact absurd hnan (by decide +kernel)
  | whole n =>
    rw [seconds, ofWhole] at h
    split at h
    · cases h
    · obtain rfl := Except.ok.inj h
      rw [Decimal.isNaN_nearestInt] at hnan
      cases hnan
  | real y => rw [← Except.ok.inj h]
  | text s =>
    rw [seconds] at h
    split at h
    · next a _ =>
      obtain rfl := Except.ok.inj h
      rw [a.isInstant_seconds.not_isNaN] at hnan
      cases hnan
    · cases h

/-- A duration is positive, unless it is given as what is not a number. -/
theorem Duration.positive_of_parse {given : Given} {x : Float} (h : parse given = .ok x) :
    0 < x ∨ given = .real x ∧ x.isNaN = true := by
  cases hseconds : given.seconds with
  | error e =>
    rw [parse, hseconds] at h
    cases h
  | ok y =>
    simp only [parse, hseconds, bind, Except.bind] at h
    split at h
    · cases h
    · next hpositive =>
      obtain rfl := Except.ok.inj h
      cases hnan : y.isNaN with
      | true => exact .inr ⟨given.eq_real_of_isNaN hseconds hnan, rfl⟩
      | false => exact .inl ((lt_iff_not_le isInstant_zero hnan).2 hpositive)

end Testbed

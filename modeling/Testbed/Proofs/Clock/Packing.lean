import Mathlib

/-!
# Bits of the doubles without a sign

The clock of a run is a double.  The doubles from zero to infinity that carry no minus sign are
ordered as their bits are: a finite one is `m * 2 ^ e` with a canonical pair `m`, `e`, and its bits
are `(e + 1074) * 2 ^ 52 + m`.  The bits of infinity are `2047 * 2 ^ 52`; larger bits belong to a
double with a minus sign or to none at all.
-/

open Float.Model (Format UnpackedFloat)
open Float.Model.UnpackedFloat

namespace Testbed.Clock

/-! ## Fields -/

theorem toNat_unpackExponent (b : BitVec 64) :
    (@unpackExponent Format.binary64 b).toNat = b.toNat / 2 ^ 52 % 2 ^ 11 := by
  simp [unpackExponent, BitVec.extractLsb, BitVec.extractLsb'_toNat, Nat.shiftRight_eq_div_pow]

theorem toNat_unpackMantissa (b : BitVec 64) :
    (@unpackMantissa Format.binary64 b).toNat = b.toNat % 2 ^ 52 := by
  simp [unpackMantissa, BitVec.extractLsb, BitVec.extractLsb'_toNat]

theorem toNat_append_mantissa (b : BitVec 64) :
    (1#1 ++ @unpackMantissa Format.binary64 b).toNat = 2 ^ 52 + b.toNat % 2 ^ 52 := by
  rw [BitVec.toNat_append, ← Nat.shiftLeft_add_eq_or_of_lt (BitVec.isLt _), toNat_unpackMantissa]
  rfl

theorem toNat_unpackSign (b : BitVec 64) :
    (@unpackSign Format.binary64 b).toNat = b.toNat / 2 ^ 63 := by
  have := b.isLt
  simp [unpackSign, BitVec.extractLsb, BitVec.extractLsb'_toNat, Nat.shiftRight_eq_div_pow]
  omega

theorem unpackExponent_eq_iff {b : BitVec 64} {k : BitVec 11} :
    @unpackExponent Format.binary64 b = k ↔ b.toNat / 2 ^ 52 % 2 ^ 11 = k.toNat := by
  rw [← toNat_unpackExponent, BitVec.toNat_inj]

theorem unpackMantissa_eq_zero_iff {b : BitVec 64} :
    @unpackMantissa Format.binary64 b = 0#52 ↔ b.toNat % 2 ^ 52 = 0 := by
  rw [← toNat_unpackMantissa, ← BitVec.toNat_inj]
  rfl

theorem sign_of_lt {b : BitVec 64} (h : b.toNat < 2 ^ 63) :
    Sign.ofBitVec (@unpackSign Format.binary64 b) = .positive := by
  have hsign : @unpackSign Format.binary64 b = 0#1 := by
    rw [← BitVec.toNat_inj, toNat_unpackSign, Nat.div_eq_of_lt h]
    rfl
  rw [hsign]
  rfl

theorem sign_of_le {b : BitVec 64} (h : 2 ^ 63 ≤ b.toNat) :
    Sign.ofBitVec (@unpackSign Format.binary64 b) = .negative := by
  have hsign : @unpackSign Format.binary64 b = 1#1 := by
    have hlt := b.isLt
    rw [← BitVec.toNat_inj, toNat_unpackSign]
    simp
    omega
  rw [hsign]
  rfl

theorem toNat_ones : (-1#11 : BitVec 11).toNat = 2047 := by
  decide

theorem toNat_packComponents (s : Sign) (e : BitVec 11) (m : BitVec 52) :
    (packComponents Format.binary64 s e m).toNat =
      s.toBitVec.toNat * 2 ^ 63 + e.toNat * 2 ^ 52 + m.toNat := by
  have hm := m.isLt
  have he := e.isLt
  simp only [packComponents, BitVec.toNat_append]
  rw [← Nat.shiftLeft_add_eq_or_of_lt hm, ← Nat.shiftLeft_add_eq_or_of_lt he]
  simp only [Nat.shiftLeft_eq]
  omega

/-! ## Doubles without a sign -/

/-- The mantissa has 53 bits, or fewer at the least exponent. -/
structure Canonical (m : Nat) (e : Int) : Prop where
  pos : 0 < m
  lt : m < 2 ^ 53
  least : -1074 ≤ e
  full : 2 ^ 52 ≤ m ∨ e = -1074

theorem Canonical.bits_lt_iff {m n : Nat} {e f : Int} (h : Canonical m e) (k : Canonical n f) :
    (e + 1074) * 2 ^ 52 + m < (f + 1074) * 2 ^ 52 + (n : Int) ↔ e < f ∨ e = f ∧ m < n := by
  obtain ⟨-, hlt, hleast, hfull⟩ := h
  obtain ⟨-, klt, kleast, kfull⟩ := k
  omega

theorem unpack_infinity {b : BitVec 64} (h : b.toNat = 2047 * 2 ^ 52) :
    UnpackedFloat.unpack Format.binary64 b = .infinity .positive := by
  have hexponent : @unpackExponent Format.binary64 b = -1#11 := by
    rw [unpackExponent_eq_iff, toNat_ones]
    omega
  have hmantissa : @unpackMantissa Format.binary64 b = 0#52 := by
    rw [unpackMantissa_eq_zero_iff]
    omega
  rw [UnpackedFloat.unpack, if_pos hexponent, if_pos hmantissa, sign_of_lt (by omega)]

theorem unpack_zero {b : BitVec 64} (h : b.toNat = 0) :
    UnpackedFloat.unpack Format.binary64 b = .zero .positive := by
  obtain rfl : b = 0#64 := BitVec.eq_of_toNat_eq h
  rfl

/-- The doubles below the least normal one, zero aside. -/
theorem unpack_subnormal {b : BitVec 64} (hpos : 0 < b.toNat) (h : b.toNat < 2 ^ 52) :
    ∃ m e hm, UnpackedFloat.unpack Format.binary64 b = .finite .positive m e hm ∧
      Canonical m e ∧ (b.toNat : Int) = (e + 1074) * 2 ^ 52 + m := by
  have htop : @unpackExponent Format.binary64 b ≠ -1#11 := by
    rw [ne_eq, unpackExponent_eq_iff, toNat_ones]
    omega
  have hexponent : @unpackExponent Format.binary64 b = 0#11 := by
    rw [unpackExponent_eq_iff, Nat.div_eq_of_lt h]
    rfl
  have hmantissa : @unpackMantissa Format.binary64 b ≠ 0#52 := by
    rw [ne_eq, unpackMantissa_eq_zero_iff]
    omega
  have hm : 0 < (@unpackMantissa Format.binary64 b).toNat := by
    rw [toNat_unpackMantissa]
    omega
  rw [UnpackedFloat.unpack, if_neg htop, if_pos hexponent, dif_neg hmantissa, sign_of_lt (by omega)]
  refine ⟨_, _, hm, rfl, ?_, ?_⟩
  · rw [toNat_unpackMantissa, toNat_unpackExponent]
    constructor <;> simp [Format.exponentBias] <;> omega
  · rw [toNat_unpackMantissa, toNat_unpackExponent]
    simp [Format.exponentBias]
    omega

/-- The normal doubles, which have an implicit leading bit. -/
theorem unpack_normal {b : BitVec 64} (hle : 2 ^ 52 ≤ b.toNat) (h : b.toNat < 2047 * 2 ^ 52) :
    ∃ m e hm, UnpackedFloat.unpack Format.binary64 b = .finite .positive m e hm ∧
      Canonical m e ∧ (b.toNat : Int) = (e + 1074) * 2 ^ 52 + m := by
  have htop : @unpackExponent Format.binary64 b ≠ -1#11 := by
    rw [ne_eq, unpackExponent_eq_iff, toNat_ones]
    omega
  have hexponent : @unpackExponent Format.binary64 b ≠ 0#11 := by
    rw [ne_eq, unpackExponent_eq_iff]
    simp
    omega
  have happend := toNat_append_mantissa b
  rw [UnpackedFloat.unpack, if_neg htop, if_neg hexponent, sign_of_lt (by omega)]
  refine ⟨_, _, by rw [happend]; omega, rfl, ?_, ?_⟩
  · rw [happend, toNat_unpackExponent]
    constructor <;> simp [Format.exponentBias] <;> omega
  · rw [happend, toNat_unpackExponent]
    simp [Format.exponentBias]
    omega

theorem unpack_of_le {b : BitVec 64} (h : b.toNat ≤ 2047 * 2 ^ 52) :
    (UnpackedFloat.unpack Format.binary64 b = .infinity .positive ∧ b.toNat = 2047 * 2 ^ 52) ∨
    (UnpackedFloat.unpack Format.binary64 b = .zero .positive ∧ b.toNat = 0) ∨
    ∃ m e hm, UnpackedFloat.unpack Format.binary64 b = .finite .positive m e hm ∧
      Canonical m e ∧ (b.toNat : Int) = (e + 1074) * 2 ^ 52 + m ∧ b.toNat < 2047 * 2 ^ 52 := by
  obtain heq | hlt := Nat.eq_or_lt_of_le h
  · exact .inl ⟨unpack_infinity heq, heq⟩
  obtain hzero | hpos := Nat.eq_zero_or_pos b.toNat
  · exact .inr (.inl ⟨unpack_zero hzero, hzero⟩)
  have hfinite : ∃ m e hm, UnpackedFloat.unpack Format.binary64 b = .finite .positive m e hm ∧
      Canonical m e ∧ (b.toNat : Int) = (e + 1074) * 2 ^ 52 + m :=
    (Nat.lt_or_ge b.toNat (2 ^ 52)).elim (unpack_subnormal hpos) fun hle ↦ unpack_normal hle hlt
  obtain ⟨m, e, hm, hunpack, hcanonical, hbits⟩ := hfinite
  exact .inr (.inr ⟨m, e, hm, hunpack, hcanonical, hbits, hlt⟩)

theorem unpack_of_lt {b : BitVec 64} (h : 2047 * 2 ^ 52 < b.toNat) :
    UnpackedFloat.unpack Format.binary64 b = .notANumber ∨
    UnpackedFloat.unpack Format.binary64 b = .infinity .negative ∨
    UnpackedFloat.unpack Format.binary64 b = .zero .negative ∨
    ∃ m e hm, UnpackedFloat.unpack Format.binary64 b = .finite .negative m e hm := by
  obtain hlt | hle := Nat.lt_or_ge b.toNat (2 ^ 63)
  · have hexponent : @unpackExponent Format.binary64 b = -1#11 := by
      rw [unpackExponent_eq_iff, toNat_ones]
      omega
    have hmantissa : @unpackMantissa Format.binary64 b ≠ 0#52 := by
      rw [ne_eq, unpackMantissa_eq_zero_iff]
      omega
    rw [UnpackedFloat.unpack, if_pos hexponent, if_neg hmantissa]
    exact .inl rfl
  · rw [UnpackedFloat.unpack]
    simp only [sign_of_le hle]
    split_ifs with h1 h2 h3 h4
    · exact .inr (.inl rfl)
    · exact .inl rfl
    · exact .inr (.inr (.inl rfl))
    · have hpos : 0 < (@unpackMantissa Format.binary64 b).toNat :=
        Nat.pos_of_ne_zero fun h ↦ h4 (BitVec.eq_of_toNat_eq h)
      exact .inr (.inr (.inr ⟨_, _, hpos, rfl⟩))
    · have hpos : 0 < (1#1 ++ @unpackMantissa Format.binary64 b).toNat := by
        rw [toNat_append_mantissa]
        omega
      exact .inr (.inr (.inr ⟨_, _, hpos, rfl⟩))

/-- Packing cuts off at infinity. -/
theorem toNat_pack_finite {m : Nat} {e : Int} (hm : 0 < m) (h : Canonical m e) :
    ((UnpackedFloat.pack Format.binary64 (.finite .positive m e hm)).toNat : Int) =
      min ((e + 1074) * 2 ^ 52 + m) (2047 * 2 ^ 52) := by
  obtain ⟨-, hlt, hleast, hfull⟩ := h
  simp only [UnpackedFloat.pack]
  have hb : ((e + (Format.binary64.exponentBias : Int) +
      (Format.binary64.mantissaBitsWithoutImplicit : Int)).toNat : Int) = e + 1075 := by
    simp [Format.exponentBias]
    omega
  have hlog : m.log2 < 53 := (Nat.log2_lt hm.ne').2 hlt
  generalize (e + (Format.binary64.exponentBias : Int) +
      (Format.binary64.mantissaBitsWithoutImplicit : Int)).toNat = biased at *
  split
  · simp only [packedInfinity]
    rw [toNat_packComponents]
    simp [Sign.toBitVec] at *
    omega
  · split
    next hn hl =>
      have hge : 2 ^ 52 ≤ m := (Nat.le_log2 hm.ne').1 (by simp [Format.mantissaBits] at hl; omega)
      rw [toNat_packComponents]
      simp [Sign.toBitVec] at *
      omega
    next hn hl =>
      have hm52 : m < 2 ^ 52 := (Nat.log2_lt hm.ne').1 (by simp [Format.mantissaBits] at hl; omega)
      rw [toNat_packComponents]
      simp [Sign.toBitVec] at *
      omega

theorem toNat_pack_unpack {b : BitVec 64} (h : b.toNat ≤ 2047 * 2 ^ 52) :
    (UnpackedFloat.pack Format.binary64 (UnpackedFloat.unpack Format.binary64 b)).toNat =
      b.toNat := by
  obtain ⟨hb, hl⟩ | ⟨hb, hl⟩ | ⟨m, e, hm, hb, hc, hl, hlt⟩ := unpack_of_le h
  · rw [hb, hl]
    rfl
  · rw [hb, hl]
    rfl
  · rw [hb]
    have := toNat_pack_finite hm hc
    omega

end Testbed.Clock

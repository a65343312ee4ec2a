import Testbed.Proofs.Clock.Instant

/-!
# Exact sums

A finite double is a multiple of `2 ^ -1074`.  A sum of doubles is exact if it is the sum of these
multiples, so that nothing is rounded.  Rounding can change the order of two instants that are
computed from one start, exact sums cannot: they are ordered as what was added.
-/

open Float.Model (Format UnpackedFloat)
open Float.Model.UnpackedFloat

namespace Testbed.Clock

/-- The value of a finite double, as a multiple of `2 ^ -1074`. -/
def scaled (x : Float) : Option Int :=
  match x.toModel.unpack with
  | .finite s m e _ => some (s.apply ((m * 2 ^ (e + 1074).toNat : Nat) : Int))
  | .zero _ => some 0
  | .infinity _ | .notANumber => none

/-- The sum of a number and a time, which may be infinite, needs no rounding. -/
def ExactSum (x d : Float) : Prop :=
  ∃ a ∈ scaled x, d.isInf = true ∨ ∃ b ∈ scaled d, scaled (x + d) = some (a + b)

instance (x d : Float) : Decidable (ExactSum x d) :=
  inferInstanceAs (Decidable (∃ a ∈ scaled x, _ ∨ ∃ b ∈ scaled d, _))

/-- A double that has a value is finite. -/
theorem unpack_of_scaled {x : Float} {a : Int} (ha : scaled x = some a) :
    (∃ s m e h, x.toModel.unpack = .finite s m e h) ∨ ∃ s, x.toModel.unpack = .zero s := by
  rw [scaled] at ha
  split at ha
  · exact .inl ⟨_, _, _, _, by assumption⟩
  · exact .inr ⟨_, by assumption⟩
  · cases ha
  · cases ha

/-! ## Order -/

theorem Canonical.scaled_lt_iff {m n : Nat} {e f : Int} (h : Canonical m e) (k : Canonical n f) :
    m * 2 ^ (e + 1074).toNat < n * 2 ^ (f + 1074).toNat ↔ e < f ∨ e = f ∧ m < n := by
  -- a larger exponent weighs more than any mantissa
  have hlt {m n : Nat} {e f : Int} (h : Canonical m e) (k : Canonical n f) (hef : e < f) :
      m * 2 ^ (e + 1074).toNat < n * 2 ^ (f + 1074).toNat := by
    have hn : 2 ^ 52 ≤ n := k.full.resolve_right (by have := h.least; omega)
    calc
      m * 2 ^ (e + 1074).toNat < 2 ^ 53 * 2 ^ (e + 1074).toNat := by
        exact Nat.mul_lt_mul_of_pos_right h.lt (by positivity)
      _ = 2 ^ 52 * 2 ^ ((e + 1074).toNat + 1) := by ring
      _ ≤ n * 2 ^ (f + 1074).toNat := by
        apply Nat.mul_le_mul hn
        apply Nat.pow_le_pow_right (by decide)
        have := h.least
        omega
  obtain hef | rfl | hfe := lt_trichotomy e f
  · exact iff_of_true (hlt h k hef) (.inl hef)
  · rw [Nat.mul_lt_mul_right (by positivity)]
    simp
  · apply iff_of_false
    · exact (hlt k h hfe).le.not_gt
    · omega

theorem scaled_instant {x : Float} (h : IsInstant x) :
    scaled x = none ∧ x.toModel.unpack = .infinity .positive ∨ scaled x = some 0 ∧ tick x = 0 ∨
      ∃ m e, Canonical m e ∧ scaled x = some ((m * 2 ^ (e + 1074).toNat : Nat) : Int) ∧
        (tick x : Int) = (e + 1074) * 2 ^ 52 + m := by
  obtain ⟨hu, -⟩ | ⟨hu, ht⟩ | ⟨m, e, hm, hu, hc, ht, -⟩ :=
    unpack_of_le (b := x.toModel.toBits.toBitVec) h
  · refine .inl ⟨?_, hu⟩
    rw [scaled, Float.Model.unpack, hu]
  · refine .inr (.inl ⟨?_, ht⟩)
    rw [scaled, Float.Model.unpack, hu]
  · refine .inr (.inr ⟨m, e, hc, ?_, ht⟩)
    rw [scaled, Float.Model.unpack, hu]
    rfl

/-- Finite instants are ordered as their values. -/
theorem tick_le_iff_scaled {x y : Float} {a b : Int} (hx : IsInstant x) (hy : IsInstant y)
    (ha : scaled x = some a) (hb : scaled y = some b) : tick x ≤ tick y ↔ a ≤ b := by
  obtain ⟨hx, -⟩ | ⟨hx, htx⟩ | ⟨m, e, hc, hx, htx⟩ := scaled_instant hx
  · cases hx.symm.trans ha
  all_goals
    cases hx.symm.trans ha
    obtain ⟨hy, -⟩ | ⟨hy, hty⟩ | ⟨n, f, hd, hy, hty⟩ := scaled_instant hy
    · cases hy.symm.trans hb
    all_goals cases hy.symm.trans hb
  · simp [htx, hty]
  · exact iff_of_true (by omega) (Int.natCast_nonneg _)
  · apply iff_of_false
    · have := hc.pos
      have := hc.least
      omega
    · have : 0 < m * 2 ^ (e + 1074).toNat := Nat.mul_pos hc.pos (by positivity)
      omega
  · rw [Int.ofNat_le, ← not_lt, ← not_lt, hd.scaled_lt_iff hc, ← hd.bits_lt_iff hc]
    omega

theorem scaled_nonneg {x : Float} {a : Int} (h : IsInstant x) (ha : scaled x = some a) : 0 ≤ a :=
  (tick_le_iff_scaled isInstant_zero h rfl ha).1 (Nat.zero_le _)

theorem not_isNaN_of_scaled {x : Float} {a : Int} (ha : scaled x = some a) : x.isNaN = false := by
  change x.toModel.unpack.isNaN = false
  obtain ⟨s, m, e, h, hx⟩ | ⟨s, hx⟩ := unpack_of_scaled ha <;>
  · rw [hx]
    rfl

/-- A number is compared with a finite instant as its value is. -/
theorem le_iff_scaled {x y : Float} {a b : Int} (hy : IsInstant y) (ha : scaled x = some a)
    (hb : scaled y = some b) : x ≤ y ↔ a ≤ b := by
  by_cases hx : IsInstant x
  · rw [le_iff_tick hx hy, tick_le_iff_scaled hx hy ha hb]
  · -- what is no instant has a minus sign
    apply iff_of_true
    · by_contra hle
      exact hx (isInstant_of_not_le hy hle (not_isNaN_of_scaled ha))
    · refine le_trans ?_ (scaled_nonneg hy hb)
      obtain hu | hu | hu | ⟨m, e, hm, hu⟩ :=
        unpack_of_lt (b := x.toModel.toBits.toBitVec) (Nat.lt_of_not_le hx) <;>
      rw [scaled, Float.Model.unpack, hu] at ha <;> cases ha
      · exact le_rfl
      · exact Int.neg_nonpos_of_nonneg (Int.natCast_nonneg _)

/-! ## Infinities -/

theorem unpack_of_isInf {x : Float} (h : x.isInf = true) : ∃ s, x.toModel.unpack = .infinity s := by
  have hx : x.toModel.unpack.isInf = true := h
  cases hu : x.toModel.unpack <;> simp_all [UnpackedFloat.isInf]

theorem not_isNaN_of_infinity {x : Float} {s : Sign} (h : x.toModel.unpack = .infinity s) :
    x.isNaN = false := by
  change x.toModel.unpack.isNaN = false
  rw [h]
  rfl

/-- A sum with an infinity is that infinity. -/
theorem unpack_add_infinity {x d : Float} {a : Int} {s : Sign} (ha : scaled x = some a)
    (hd : d.toModel.unpack = .infinity s) : (x + d).toModel.unpack = .infinity s := by
  have hadd : UnpackedFloat.add Format.binary64 x.toModel.unpack d.toModel.unpack = .infinity s := by
    obtain ⟨s', m, e, h, hx⟩ | ⟨s', hx⟩ := unpack_of_scaled ha <;>
    · rw [hx, hd]
      rfl
  calc
    (x + d).toModel.unpack = (Float.Model.pack (.infinity s)).unpack :=
      congrArg (fun u ↦ (Float.Model.pack u).unpack) hadd
    _ = .infinity s := by cases s <;> rfl

theorem le_infinity {x y : Float} (hx : x.isNaN = false) (hy : y.toModel.unpack = .infinity .positive) :
    x ≤ y := by
  have hx' : x.toModel.unpack.isNaN = false := hx
  rw [le_def, hy]
  cases hu : x.toModel.unpack with
  | infinity s => cases s <;> rfl
  | notANumber =>
    rw [hu] at hx'
    cases hx'
  | zero s => rfl
  | finite s m e h => rfl

/-- An infinity is compared with all finite instants in one way. -/
theorem infinity_le_iff {x y : Float} {b : Int} {s : Sign} (hx : x.toModel.unpack = .infinity s)
    (hb : scaled y = some b) : x ≤ y ↔ s = .negative := by
  rw [le_def, hx]
  obtain ⟨s', m, e, h, hy⟩ | ⟨s', hy⟩ := unpack_of_scaled hb <;>
  · rw [hy]
    cases s <;> simp [UnpackedFloat.compare]

/-! ## Sums -/

theorem ExactSum.not_isNaN {x d : Float} (h : ExactSum x d) :
    d.isNaN = false ∧ (x + d).isNaN = false := by
  obtain ⟨a, ha, hinf | ⟨b, hb, hsum⟩⟩ := h
  · obtain ⟨s, hs⟩ := unpack_of_isInf hinf
    exact ⟨not_isNaN_of_infinity hs, not_isNaN_of_infinity (unpack_add_infinity ha hs)⟩
  · exact ⟨not_isNaN_of_scaled hb, not_isNaN_of_scaled hsum⟩

/-- Exact sums with one start are ordered as what is added. -/
theorem ExactSum.le_iff {x d limit : Float} (hx : IsInstant x) (hd : IsInstant d)
    (hexact : ExactSum x d) (hlimit : ExactSum x limit) : x + limit ≤ x + d ↔ limit ≤ d := by
  have hnan := hlimit.not_isNaN
  obtain ⟨a, ha, hinf | ⟨b, hb, hsum⟩⟩ := hexact
  · obtain ⟨s, hs⟩ := unpack_of_isInf hinf
    obtain rfl : s = .positive := by
      obtain ⟨-, hpositive⟩ | ⟨hfinite, -⟩ | ⟨m, e, -, hfinite, -⟩ := scaled_instant hd
      · cases hs.symm.trans hpositive
        rfl
      all_goals
        rw [scaled, hs] at hfinite
        cases hfinite
    exact iff_of_true (le_infinity hnan.2 (unpack_add_infinity ha hs)) (le_infinity hnan.1 hs)
  · have hend : IsInstant (x + d) := (isInstant_add_instant hx hd).1
    obtain ⟨a', ha', hinf | ⟨l, hl, hsum'⟩⟩ := hlimit
    · obtain ⟨s, hs⟩ := unpack_of_isInf hinf
      rw [infinity_le_iff (unpack_add_infinity ha hs) hsum, infinity_le_iff hs hb]
    · cases ha.symm.trans ha'
      rw [le_iff_scaled hend hsum' hsum, le_iff_scaled hd hl hb]
      omega

theorem add_zero_instant {x : Float} (h : IsInstant x) : x + 0 = x := by
  apply tick_injective
  rw [← toNat_pack_unpack_instant h]
  have hadd : UnpackedFloat.add Format.binary64 x.toModel.unpack (0 : Float).toModel.unpack =
      x.toModel.unpack := by
    obtain ⟨hu, -⟩ | ⟨hu, -⟩ | ⟨m, e, hm, hu, -⟩ :=
      unpack_of_le (b := x.toModel.toBits.toBitVec) h <;>
    · rw [Float.Model.unpack, hu]
      rfl
  exact congrArg (fun u ↦ (UnpackedFloat.pack Format.binary64 u).toNat) hadd

/-- No time passes in a time that is neither negative nor positive. -/
theorem add_eq_self {x d : Float} (h : IsInstant x) (hd : 0 ≤ d) (hd' : d ≤ 0) : x + d = x := by
  by_cases hinstant : IsInstant d
  · have hzero : d = 0 := tick_injective (Nat.le_zero.1 ((le_iff_tick hinstant isInstant_zero).1 hd'))
    rw [hzero, add_zero_instant h]
  · rw [add_eq_add_zero h hd hinstant, add_zero_instant h]

theorem ExactSum.le_self_iff {x limit : Float} (hx : IsInstant x) (hlimit : ExactSum x limit) :
    x + limit ≤ x ↔ limit ≤ 0 := by
  have hzero : ExactSum x 0 := by
    obtain ⟨a, ha, -⟩ := hlimit
    refine ⟨a, ha, .inr ⟨0, rfl, ?_⟩⟩
    rw [add_zero_instant hx, Int.add_zero]
    exact ha
  have hle := hzero.le_iff hx isInstant_zero hlimit
  rwa [add_zero_instant hx] at hle

end Testbed.Clock

import Testbed.Proofs.Clock.Rounding

/-!
# Instants

An instant is a double that a clock can show: a number from zero to infinity without a minus sign.
Instants are ordered as their bits are, so that `tick` turns every question about their order into
one about natural numbers.  Adding a time that is not negative gives an instant again, and none that
is earlier.
-/

open Float.Model (Format UnpackedFloat)
open Float.Model.UnpackedFloat

namespace Testbed.Clock

def IsInstant (x : Float) : Prop :=
  x.toBits.toNat ≤ 2047 * 2 ^ 52

instance (x : Float) : Decidable (IsInstant x) :=
  inferInstanceAs (Decidable (_ ≤ _))

/-- The place of an instant in the order of instants. -/
def tick (x : Float) : Nat :=
  x.toBits.toNat

theorem tick_injective : Function.Injective tick := by
  rintro ⟨⟨x, hx⟩⟩ ⟨⟨y, hy⟩⟩ h
  have : x = y := UInt64.toNat_inj.1 h
  subst this
  rfl

/-! ## Order -/

theorem le_def (a b : Float) :
    a ≤ b ↔ (a.toModel.unpack.compare b.toModel.unpack).any (·.isLE) = true :=
  decide_eq_true_iff

theorem lt_def (a b : Float) :
    a < b ↔ (a.toModel.unpack.compare b.toModel.unpack == some .lt) = true :=
  decide_eq_true_iff

theorem compare_of_le {a b : BitVec 64} (ha : a.toNat ≤ 2047 * 2 ^ 52)
    (hb : b.toNat ≤ 2047 * 2 ^ 52) :
    (UnpackedFloat.unpack Format.binary64 a).compare (UnpackedFloat.unpack Format.binary64 b) =
      some (compare a.toNat b.toNat) := by
  obtain ⟨ha, hla⟩ | ⟨ha, hla⟩ | ⟨m, e, hm, ha, hca, hla, hla'⟩ := unpack_of_le ha <;>
  obtain ⟨hb, hlb⟩ | ⟨hb, hlb⟩ | ⟨n, f, hn, hb, hcb, hlb, hlb'⟩ := unpack_of_le hb <;>
  rw [ha, hb] <;> simp only [UnpackedFloat.compare, Option.some.injEq] <;> symm
  · rw [hla, hlb]
    rfl
  · rw [hla, hlb]
    rfl
  · rw [Nat.compare_eq_gt]
    omega
  · rw [hla, hlb]
    rfl
  · rw [hla, hlb]
    rfl
  · rw [Nat.compare_eq_lt]
    have := hcb.pos
    have := hcb.least
    omega
  · rw [Nat.compare_eq_lt]
    omega
  · rw [Nat.compare_eq_gt]
    have := hca.pos
    have := hca.least
    omega
  · have hlt := hca.bits_lt_iff hcb
    have hgt := hcb.bits_lt_iff hca
    rcases lt_trichotomy a.toNat b.toNat with h | h | h
    · have hlex : e < f ∨ e = f ∧ m < n := hlt.1 (by omega)
      rw [Nat.compare_eq_lt.2 h]
      rcases hlex with h | ⟨rfl, h⟩
      · simp [Std.compare_eq_lt.2 h]
      · simp [Nat.compare_eq_lt.2 h]
    · obtain ⟨rfl, rfl⟩ : e = f ∧ m = n := by omega
      simp [h]
    · have hlex : f < e ∨ f = e ∧ n < m := hgt.1 (by omega)
      rw [Nat.compare_eq_gt.2 h]
      rcases hlex with h | ⟨rfl, h⟩
      · simp [Std.compare_eq_gt.2 h]
      · simp [Nat.compare_eq_gt.2 h]

theorem le_iff_tick {a b : Float} (ha : IsInstant a) (hb : IsInstant b) :
    a ≤ b ↔ tick a ≤ tick b := by
  have h := compare_of_le (a := a.toModel.toBits.toBitVec) (b := b.toModel.toBits.toBitVec) ha hb
  rw [le_def, Float.Model.unpack, Float.Model.unpack, h, Option.any_some, Nat.isLE_compare]
  rfl

theorem lt_iff_tick {a b : Float} (ha : IsInstant a) (hb : IsInstant b) :
    a < b ↔ tick a < tick b := by
  have h := compare_of_le (a := a.toModel.toBits.toBitVec) (b := b.toModel.toBits.toBitVec) ha hb
  rw [lt_def, Float.Model.unpack, Float.Model.unpack, h]
  simp only [beq_iff_eq, Option.some.injEq, Nat.compare_eq_lt]
  rfl

/-! ## Doubles that are no instants -/

theorem unpack_of_isNaN {x : Float} (h : x.isNaN = true) : x.toModel.unpack = .notANumber := by
  have hx : x.toModel.unpack.isNaN = true := h
  cases hu : x.toModel.unpack <;> simp_all [UnpackedFloat.isNaN]

theorem not_le_of_isNaN {x : Float} (h : x.isNaN = true) (y : Float) : ¬ x ≤ y ∧ ¬ y ≤ x := by
  rw [le_def, le_def, unpack_of_isNaN h]
  constructor
  · simp [UnpackedFloat.compare]
  · cases y.toModel.unpack <;> simp [UnpackedFloat.compare]

theorem not_lt_of_isNaN {x : Float} (h : x.isNaN = true) (y : Float) : ¬ x < y ∧ ¬ y < x := by
  rw [lt_def, lt_def, unpack_of_isNaN h]
  constructor
  · simp [UnpackedFloat.compare]
  · cases y.toModel.unpack <;> simp [UnpackedFloat.compare]

/-- A number is not later than itself. -/
theorem le_self {x : Float} (h : x.isNaN = false) : x ≤ x := by
  have hnan : x.toModel.unpack.isNaN = false := h
  rw [le_def]
  generalize x.toModel.unpack = u at hnan
  rcases u with s | _ | s | ⟨s, m, e, hm⟩
  · cases s <;> rfl
  · cases hnan
  · cases s <;> rfl
  · cases s <;> simp [UnpackedFloat.compare]

theorem IsInstant.not_isNaN {x : Float} (h : IsInstant x) : x.isNaN = false := by
  by_contra hn
  exact (not_le_of_isNaN (by simpa using hn) x).1 ((le_iff_tick h h).2 le_rfl)

/-- What is not earlier than an instant is none of the doubles with a minus sign. -/
theorem isInstant_of_not_le {t x : Float} (ht : IsInstant t) (h : ¬ x ≤ t)
    (hnan : x.isNaN = false) : IsInstant x := by
  by_contra hx
  apply h
  have hnan' : x.toModel.unpack.isNaN = false := hnan
  rw [le_def]
  obtain hux | hux | hux | ⟨m, e, hm, hux⟩ :=
    unpack_of_lt (b := x.toModel.toBits.toBitVec) (Nat.lt_of_not_le hx)
  · simp [Float.Model.unpack, hux, UnpackedFloat.isNaN] at hnan'
  all_goals
    obtain ⟨hut, -⟩ | ⟨hut, -⟩ | ⟨n, f, hn, hut, -⟩ :=
      unpack_of_le (b := t.toModel.toBits.toBitVec) ht
    all_goals
      rw [Float.Model.unpack, Float.Model.unpack, hux, hut]
      rfl

theorem le_of_le_of_tick {x a b : Float} (ha : IsInstant a) (hb : IsInstant b) (h : x ≤ a)
    (hab : tick a ≤ tick b) : x ≤ b := by
  by_contra hn
  have hx : IsInstant x := by
    refine isInstant_of_not_le hb hn ?_
    by_contra hnan
    exact (not_le_of_isNaN (by simpa using hnan) a).1 h
  rw [le_iff_tick hx ha] at h
  rw [le_iff_tick hx hb] at hn
  omega

/-! ## Sums -/

theorem isInstant_zero : IsInstant 0 := by
  decide

theorem toNat_pack_unpack_instant {x : Float} (h : IsInstant x) :
    (UnpackedFloat.pack Format.binary64 x.toModel.unpack).toNat = tick x :=
  toNat_pack_unpack (b := x.toModel.toBits.toBitVec) h

theorem instant_of_add_eq {a b : Float} {u : UnpackedFloat}
    (hu : UnpackedFloat.add Format.binary64 a.toModel.unpack b.toModel.unpack = u)
    (hle : tick a ≤ (UnpackedFloat.pack Format.binary64 u).toNat)
    (htop : (UnpackedFloat.pack Format.binary64 u).toNat ≤ 2047 * 2 ^ 52) :
    IsInstant (a + b) ∧ tick a ≤ tick (a + b) := by
  subst hu
  exact ⟨htop, hle⟩

/-- The sum of two finite magnitudes, rounded once, is canonical and not below the first. -/
theorem add_finite {m n : Nat} {e f : Int} (hm : 0 < m) (hn : 0 < n) (hca : Canonical m e)
    (hcb : Canonical n f) :
    ∃ m' e' h, UnpackedFloat.add Format.binary64 (.finite .positive m e hm)
        (.finite .positive n f hn) = .finite .positive m' e' h ∧
      Canonical m' e' ∧ (e + 1074) * 2 ^ 52 + (m : Int) ≤ (e' + 1074) * 2 ^ 52 + m' := by
  set g := min e f with hg
  have hpos : 0 < m * 2 ^ (e - g).toNat := by positivity
  have hmul : m * 2 ^ (e - g).toNat ≤ m * 2 ^ (e - g).toNat + n * 2 ^ (f - g).toNat := by omega
  have hlog := log2_le_of_mul_le hm hmul
  have h52 : 2 ^ 52 ≤ m → 52 ≤ m.log2 := fun h ↦ (Nat.le_log2 hm.ne').2 h
  have hfull := hca.full
  have hleast := hca.least
  have hleast' := hcb.least
  obtain ⟨m', e', hm', hround, hc', hmono⟩ :=
    round_positive (M := m * 2 ^ (e - g).toNat + n * 2 ^ (f - g).toNat) (e := g)
      (by omega) (by omega) (by omega)
  refine ⟨m', e', hm', ?_, hc', hmono m e hca (by omega) hmul⟩
  have hsum : ((m <<< (e - g).toNat : Nat) : Int) + ((n <<< (f - g).toNat : Nat) : Int) =
      ((m * 2 ^ (e - g).toNat + n * 2 ^ (f - g).toNat : Nat) : Int) := by
    simp [Nat.shiftLeft_eq]
  rw [← hround]
  change UnpackedFloat.normalize Format.binary64
    (((m <<< (e - g).toNat : Nat) : Int) + ((n <<< (f - g).toNat : Nat) : Int)) g .positive = _
  rw [hsum, UnpackedFloat.normalize, Std.compare_eq_gt.2 (by omega)]
  rfl

theorem isInstant_add_instant {a b : Float} (ha : IsInstant a) (hb : IsInstant b) :
    IsInstant (a + b) ∧ tick a ≤ tick (a + b) := by
  have hpa := toNat_pack_unpack_instant ha
  have hpb := toNat_pack_unpack_instant hb
  have htop : (UnpackedFloat.pack Format.binary64 (.infinity .positive)).toNat = 2047 * 2 ^ 52 :=
    rfl
  have hta : tick a ≤ 2047 * 2 ^ 52 := ha
  have htb : tick b ≤ 2047 * 2 ^ 52 := hb
  obtain ⟨hua, hla⟩ | ⟨hua, hla⟩ | ⟨m, e, hm, hua, hca, hla, -⟩ :=
    unpack_of_le (b := a.toModel.toBits.toBitVec) ha <;>
  obtain ⟨hub, -⟩ | ⟨hub, -⟩ | ⟨n, f, hn, hub, hcb, -⟩ :=
    unpack_of_le (b := b.toModel.toBits.toBitVec) hb
  -- infinity stays, zero gives the other summand
  iterate 3
    · refine instant_of_add_eq (u := .infinity .positive) ?_ (by omega) (by omega)
      rw [Float.Model.unpack, Float.Model.unpack, hua, hub]
      rfl
  iterate 3
    · have hza : tick a = 0 := hla
      refine instant_of_add_eq (u := b.toModel.unpack) ?_ (by omega) (by omega)
      rw [Float.Model.unpack, Float.Model.unpack, hua, hub]
      rfl
  · refine instant_of_add_eq (u := .infinity .positive) ?_ (by omega) (by omega)
    rw [Float.Model.unpack, Float.Model.unpack, hua, hub]
    rfl
  · refine instant_of_add_eq (u := a.toModel.unpack) ?_ (by omega) (by omega)
    rw [Float.Model.unpack, Float.Model.unpack, hua, hub]
    rfl
  · obtain ⟨m', e', hm', hadd, hc', hle⟩ := add_finite hm hn hca hcb
    have hpack := toNat_pack_finite hm' hc'
    have hla' : (tick a : Int) = (e + 1074) * 2 ^ 52 + m := hla
    refine instant_of_add_eq (u := .finite .positive m' e' hm') ?_ (by omega) (by omega)
    rw [Float.Model.unpack, Float.Model.unpack, hua, hub, hadd]

/-- A time that is not negative is an instant or the negative zero, which adds like zero. -/
theorem add_eq_add_zero {t d : Float} (ht : IsInstant t) (hd : 0 ≤ d) (h : ¬ IsInstant d) :
    t + d = t + 0 := by
  have hzero : (0 : Float).toModel.unpack = .zero .positive := rfl
  rw [le_def, hzero] at hd
  obtain hud | hud | hud | ⟨m, e, hm, hud⟩ :=
    unpack_of_lt (b := d.toModel.toBits.toBitVec) (Nat.lt_of_not_le h)
  · rw [Float.Model.unpack, hud] at hd
    cases hd
  · rw [Float.Model.unpack, hud] at hd
    cases hd
  · have hadd : UnpackedFloat.add Format.binary64 t.toModel.unpack d.toModel.unpack =
        UnpackedFloat.add Format.binary64 t.toModel.unpack (0 : Float).toModel.unpack := by
      rw [hzero, Float.Model.unpack, Float.Model.unpack, hud]
      obtain ⟨hut, -⟩ | ⟨hut, -⟩ | ⟨n, f, hn, hut, -⟩ :=
        unpack_of_le (b := t.toModel.toBits.toBitVec) ht <;>
      · rw [hut]
        rfl
    exact congrArg (fun u ↦ Float.ofModel (Float.Model.pack u)) hadd
  · rw [Float.Model.unpack, hud] at hd
    cases hd

theorem isInstant_add {t d : Float} (ht : IsInstant t) (hd : 0 ≤ d) :
    IsInstant (t + d) ∧ tick t ≤ tick (t + d) := by
  by_cases h : IsInstant d
  · exact isInstant_add_instant ht h
  · rw [add_eq_add_zero ht hd h]
    exact isInstant_add_instant ht isInstant_zero

end Testbed.Clock

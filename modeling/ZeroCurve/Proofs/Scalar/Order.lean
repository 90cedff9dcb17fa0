import ZeroCurve.Proofs.Scalar.Positive
import ZeroCurve.Proofs.Scalar.Range

/-!
# Finite doubles as rational numbers

Finite doubles are compared as the numbers that they stand for, and no two of them stand for the same
number, the two zeros apart. Opposites and sizes are exact, and what an operation rounds does not
cross a double.
-/

namespace ZeroCurve.Double

open Float.Model
open Float.Model.UnpackedFloat

theorem IsCanonical.compare_eq {m n : Nat} {e k : Int} (hm : IsCanonical m e)
    (hn : IsCanonical n k) :
    (compare e k).then (compare m n) = compare (m * 2 ^ e : ℚ) (n * 2 ^ k) := by
  rcases lt_trichotomy (m * 2 ^ e : ℚ) (n * 2 ^ k) with h | h | h
  · rw [compare_lt_iff_lt.2 h, Ordering.then_eq_lt, Int.compare_eq_lt, Int.compare_eq_eq,
      Nat.compare_eq_lt]
    exact (hm.lt_iff_lex hn).1 h
  · obtain ⟨rfl, rfl⟩ := hm.eq_of_eq hn h
    have hparts : (compare e e).then (compare m m) = .eq := by
      rw [Int.compare_eq_eq.2 rfl, Nat.compare_eq_eq.2 rfl]
      rfl
    rw [hparts]
    exact (compare_eq_iff_eq.2 rfl).symm
  · rw [compare_gt_iff_gt.2 h, Ordering.then_eq_gt, Int.compare_eq_gt, Int.compare_eq_eq,
      Nat.compare_eq_gt, eq_comm (a := e)]
    exact (hn.lt_iff_lex hm).1 h

theorem compare_neg_neg (a b : ℚ) : compare (-a) (-b) = (compare a b).swap := by
  rcases lt_trichotomy a b with h | rfl | h
  · rw [compare_lt_iff_lt.2 h, compare_gt_iff_gt.2 (neg_lt_neg h)]
    rfl
  · rw [compare_eq_iff_eq.2 rfl, compare_eq_iff_eq.2 rfl]
    rfl
  · rw [compare_gt_iff_gt.2 h, compare_lt_iff_lt.2 (neg_lt_neg h)]
    rfl

theorem number_positive {m : Nat} {e : Int} {hm : 0 < m} :
    number (.finite .positive m e hm) = m * 2 ^ e := by
  rw [number_finite, signFactor_positive, one_mul]

theorem number_negative {m : Nat} {e : Int} {hm : 0 < m} :
    number (.finite .negative m e hm) = -(m * 2 ^ e) := by
  rw [number_finite, signFactor_negative, neg_one_mul]

/-- Unpacked numbers of finite doubles are compared as the numbers that they stand for. -/
theorem IsFit.compare_eq {u w : UnpackedFloat} (hu : IsFit u) (hw : IsFit w) :
    u.compare w = some (compare (number u) (number w)) := by
  have hpos : ∀ {m : Nat} {e : Int}, 0 < m → (0 : ℚ) < m * 2 ^ e := fun hm => by positivity
  have hneg : ∀ {m : Nat} {e : Int}, 0 < m → (-(m * 2 ^ e) : ℚ) < 0 :=
    fun hm => neg_neg_of_pos (hpos hm)
  cases u with
  | notANumber | infinity s => exact hu.elim
  | zero s =>
    show _ = some (compare 0 (number w))
    cases w with
    | notANumber | infinity s' => exact hw.elim
    | zero s' => exact congrArg some (compare_eq_iff_eq.2 rfl).symm
    | finite s' m' e' hm' =>
      cases s' with
      | negative =>
        rw [number_negative, compare_gt_iff_gt.2 (hneg hm')]
        rfl
      | positive =>
        rw [number_positive, compare_lt_iff_lt.2 (hpos hm')]
        rfl
  | finite s m e hm =>
    cases w with
    | notANumber | infinity s' => exact hw.elim
    | zero s' =>
      show _ = some (compare _ 0)
      cases s with
      | negative =>
        rw [number_negative, compare_lt_iff_lt.2 (hneg hm)]
        rfl
      | positive =>
        rw [number_positive, compare_gt_iff_gt.2 (hpos hm)]
        rfl
    | finite s' m' e' hm' =>
      cases s with
      | negative =>
        cases s' with
        | negative =>
          show some ((compare e e').then (compare m m')).swap = _
          rw [hu.1.compare_eq hw.1, number_negative, number_negative, compare_neg_neg]
        | positive =>
          rw [number_negative, number_positive, compare_lt_iff_lt.2 ((hneg hm).trans (hpos hm'))]
          rfl
      | positive =>
        cases s' with
        | negative =>
          rw [number_positive, number_negative, compare_gt_iff_gt.2 ((hneg hm').trans (hpos hm))]
          rfl
        | positive =>
          show some ((compare e e').then (compare m m')) = _
          rw [hu.1.compare_eq hw.1, number_positive, number_positive]

/-- Unpacked numbers of finite doubles that are not zero are told apart by the numbers that they stand
for. -/
theorem IsFit.eq_of_number_eq {u w : UnpackedFloat} (hu : IsFit u) (hw : IsFit w)
    (hne : number u ≠ 0) (h : number u = number w) : u = w := by
  cases u with
  | notANumber | infinity s => exact hu.elim
  | zero s => exact absurd rfl hne
  | finite s m e hm =>
    cases w with
    | notANumber | infinity s' => exact hw.elim
    | zero s' => exact absurd h hne
    | finite s' m' e' hm' =>
      have hsize : (m * 2 ^ e : ℚ) = m' * 2 ^ e' := by
        rw [← abs_number_finite s m e hm, h, abs_number_finite]
      obtain ⟨rfl, rfl⟩ := hu.1.eq_of_eq hw.1 hsize
      have hpos : (0 : ℚ) < m * 2 ^ e := by positivity
      cases s with
      | negative =>
        cases s' with
        | negative => rfl
        | positive =>
          rw [number_negative, number_positive] at h
          linarith
      | positive =>
        cases s' with
        | negative =>
          rw [number_positive, number_negative] at h
          linarith
        | positive => rfl

/-- An unpacked number of a finite double is packed without loss. -/
theorem IsFit.unpack_pack {u : UnpackedFloat} (h : IsFit u) : (Float.Model.pack u).unpack = u := by
  cases u with
  | notANumber | infinity s => exact h.elim
  | zero s => cases s <;> rfl
  | finite s m e hm => rw [unpack_pack_finite h.1, if_pos h.2]

/-- The size of an unpacked number. -/
theorem number_abs (u : UnpackedFloat) : number u.abs = |number u| := by
  cases u with
  | notANumber | infinity s | zero s => exact abs_zero.symm
  | finite s m e hm =>
    rw [abs_number_finite]
    exact number_positive

theorem IsFit.abs {u : UnpackedFloat} (h : IsFit u) : IsFit u.abs := by
  cases u with
  | notANumber | infinity s => exact h.elim
  | zero s => trivial
  | finite s m e hm => exact h

theorem IsFit.isFinite {u : UnpackedFloat} (h : IsFit u) : u.isFinite = true := by
  cases u with
  | notANumber | infinity s => exact h.elim
  | zero s | finite s m e hm => rfl

/-- What is packed without loss is a finite double of the same number. -/
theorem IsFit.value_of_pack {v : Float} {u : UnpackedFloat} (h : IsFit u)
    (hv : v.toModel = Float.Model.pack u) : v.isFinite = true ∧ value v = number u := by
  have hunpack : v.toModel.unpack = u := by rw [hv, h.unpack_pack]
  refine ⟨?_, by rw [value_eq, hunpack]⟩
  show v.toModel.unpack.isFinite = true
  rw [hunpack]
  exact h.isFinite

theorem Rounds.isFit {x : ℚ} {u : UnpackedFloat} (h : Rounds x u)
    (hfinite : (Float.Model.pack u).unpack.isFinite = true) : IsFit u := by
  obtain ⟨s, m, e, hrounded, -, rfl⟩ := h
  rcases hrounded.carry_cases s with ⟨-, hcarry⟩ | ⟨n, k, hn, hcanonical, -, hcarry⟩
  · rw [hcarry]
    trivial
  · rw [hcarry, isFinite_pack_iff hcanonical] at hfinite
    rw [hcarry]
    exact ⟨hcanonical, hfinite⟩

section

variable {x z : ℚ} {v : Float} (h : IsNearest x v) (hv : v.isFinite = true)
include h hv

theorem IsNearest.exists_rounds : ∃ u, Rounds x u ∧ value v = number u := by
  obtain ⟨u, hrounds, hmodel⟩ := h
  have hfinite : v.toModel.unpack.isFinite = true := hv
  rw [hmodel] at hfinite
  exact ⟨u, hrounds, ((hrounds.isFit hfinite).value_of_pack hmodel).2⟩

/-- Rounding does not cross what can be represented. -/
theorem IsNearest.value_le (hz : IsRepresentable z) (hx : x ≤ z) : value v ≤ z := by
  obtain ⟨u, hrounds, hvalue⟩ := h.exists_rounds hv
  rw [hvalue]
  exact hrounds.number_le hz hx

theorem IsNearest.le_value (hz : IsRepresentable z) (hx : z ≤ x) : z ≤ value v := by
  obtain ⟨u, hrounds, hvalue⟩ := h.exists_rounds hv
  rw [hvalue]
  exact hrounds.le_number hz hx

theorem IsNearest.ge_of_value_eq {n : Nat} {k : Int} (hn : IsCanonical n k) (hleast : 2 ^ 52 < n)
    (hvalue : value v = n * 2 ^ k) : (n - 1 / 2) * 2 ^ k ≤ x := by
  obtain ⟨u, hrounds, hu⟩ := h.exists_rounds hv
  exact hrounds.ge_of_number_eq hn hleast (hu.symm.trans hvalue)

omit hv

/-- What can be represented, and is not too large, is kept. -/
theorem IsNearest.exact (hx : IsRepresentable x) (hlt : |x| < overflowBound) :
    v.isFinite = true ∧ value v = x := by
  have hv := h.isFinite_iff.2 hlt
  obtain ⟨u, hrounds, hu⟩ := h.exists_rounds hv
  exact ⟨hv, hu.trans (hrounds.number_eq hx)⟩

end

/-- Whole numbers that are not too large are doubles. -/
theorem value_toFloat {n : UInt64} (h : n.toNat < 2 ^ 53) :
    n.toFloat.isFinite = true ∧ value n.toFloat = n.toNat := by
  have hsize : |(n.toNat : ℚ)| = n.toNat * 2 ^ (0 : Int) := by
    rw [Nat.abs_cast, zpow_zero, mul_one]
  refine (isNearest_toFloat n).exact ⟨n.toNat, 0, h, by decide, hsize⟩ ?_
  have hn : (n.toNat : ℚ) < 2 ^ 53 := by exact_mod_cast h
  rw [Nat.abs_cast]
  exact hn.trans two_pow_lt_overflowBound

/-- The parts of a finite double. -/
theorem exists_ofFloat?_eq {v : Float} (hv : v.isFinite = true) :
    ∃ negative, Dyadic.ofFloat? v = some ⟨negative, (mantissa v).toNat, (rank v : Int) - 1074⟩ := by
  rw [isFinite_eq] at hv
  unfold Dyadic.ofFloat? at hv ⊢
  unfold mantissa rank
  dsimp only at hv ⊢
  have hzero : (v.toBits >>> 52) &&& 0x7ff = 0 ↔ ((v.toBits >>> 52) &&& 0x7ff).toNat = 0 := by
    rw [← UInt64.toNat_inj]
    rfl
  split at hv
  · cases hv
  next hbiased =>
    rw [if_neg hbiased]
    by_cases hsubnormal : (v.toBits >>> 52) &&& 0x7ff = 0
    · rw [if_pos hsubnormal, if_pos (hzero.1 hsubnormal), hzero.1 hsubnormal]
      exact ⟨_, rfl⟩
    · have hnormal := mt hzero.2 hsubnormal
      have hmantissa : ((v.toBits &&& 0xfffffffffffff) + 0x10000000000000).toNat =
          (v.toBits &&& 0xfffffffffffff).toNat + 0x10000000000000 := by
        have hfraction := toNat_fraction v.toBits
        rw [UInt64.toNat_add]
        refine Nat.mod_eq_of_lt ?_
        show _ + 0x10000000000000 < 2 ^ 64
        omega
      have hexponent : (((v.toBits >>> 52) &&& 0x7ff).toNat - 1 : Nat) - (1074 : Int) =
          ((v.toBits >>> 52) &&& 0x7ff).toNat - (1075 : Int) := by omega
      rw [if_neg hsubnormal, if_neg hnormal, hmantissa, hexponent]
      exact ⟨_, rfl⟩

section

variable {v w : Float} (hv : v.isFinite = true) (hw : w.isFinite = true)
include hv

theorem isCanonical_mantissa : IsCanonical (mantissa v).toNat ((rank v : Int) - 1074) := by
  obtain ⟨negative, hparts⟩ := exists_ofFloat?_eq hv
  have hfit := isFit_unpack hv
  rw [ofFloat?_eq] at hparts
  cases hu : v.toModel.unpack with
  | notANumber | infinity s =>
    rw [hu] at hparts
    cases hparts
  | zero s =>
    rw [hu, dyadic?, Option.some_inj, Dyadic.mk.injEq] at hparts
    rw [← hparts.2.1, ← hparts.2.2]
    exact ⟨by decide, le_rfl, .inr rfl⟩
  | finite s m e hm =>
    rw [hu] at hfit hparts
    rw [dyadic?, Option.some_inj, Dyadic.mk.injEq] at hparts
    rw [← hparts.2.1, ← hparts.2.2]
    exact hfit.1

theorem abs_value_eq : |value v| = (mantissa v).toNat * 2 ^ ((rank v : Int) - 1074) := by
  obtain ⟨negative, hparts⟩ := exists_ofFloat?_eq hv
  have hunit : (0 : ℚ) < 2 ^ ((rank v : Int) - 1074) := by positivity
  rw [value, hparts]
  show |(if negative then -((mantissa v).toNat : ℚ) else (mantissa v).toNat) * _| = _
  rw [abs_mul, abs_of_pos hunit]
  cases negative with
  | true => rw [if_pos rfl, abs_neg, Nat.abs_cast]
  | false => rw [if_neg Bool.false_ne_true, Nat.abs_cast]

theorem isRepresentable_value : IsRepresentable (value v) := by
  rw [value_eq]
  exact (isFit_unpack hv).isRepresentable

/-- What is below a double whose mantissa is not the least of its exponent is not above the next one
below it. -/
theorem value_le_of_lt {n : Nat} {k : Int} (hn : IsCanonical n k) (hleast : 2 ^ 52 < n)
    (h : value v < n * 2 ^ k) : value v ≤ (n - 1) * 2 ^ k := by
  rcases le_total (value v) 0 with hneg | hnonneg
  · have hnRat : (1 : ℚ) ≤ n := by exact_mod_cast Nat.one_le_of_lt hleast
    exact hneg.trans (mul_nonneg (by linarith) (by positivity))
  · rw [← abs_of_nonneg hnonneg, abs_value_eq hv] at h ⊢
    exact (isCanonical_mantissa hv).le_of_lt hn hleast h

/-- A double that is not smaller than another is a whole number of its units. -/
theorem exists_value_eq_mul_of_le {n : Nat} {k : Int} (hn : IsCanonical n k)
    (h : n * 2 ^ k ≤ |value v|) : ∃ count : Nat, |value v| = count * 2 ^ k := by
  have hexponent : k ≤ (rank v : Int) - 1074 := by
    rw [abs_value_eq hv] at h
    rcases hn.lex_of_le (isCanonical_mantissa hv) h with h | ⟨h, -⟩ <;> omega
  obtain ⟨d, hd⟩ := Int.le.dest hexponent
  refine ⟨(mantissa v).toNat * 2 ^ d, ?_⟩
  rw [abs_value_eq hv, ← hd, zpow_add₀ two_ne_zero, zpow_natCast]
  push_cast
  ring

theorem isFinite_opposite : (-v).isFinite = true :=
  ((isFit_unpack hv).neg.value_of_pack (v := -v) rfl).1

theorem value_neg : value (-v) = -value v := by
  rw [((isFit_unpack hv).neg.value_of_pack (v := -v) rfl).2, number_neg, value_eq]

theorem isFinite_abs : v.abs.isFinite = true :=
  ((isFit_unpack hv).abs.value_of_pack (v := v.abs) rfl).1

theorem value_abs : value v.abs = |value v| := by
  rw [((isFit_unpack hv).abs.value_of_pack (v := v.abs) rfl).2, number_abs, value_eq]

include hw

theorem lt_iff_value_lt : v < w ↔ value v < value w := by
  rw [lt_iff_unpack, UnpackedFloat.lt, (isFit_unpack hv).compare_eq (isFit_unpack hw), value_eq,
    value_eq, beq_iff_eq, Option.some_inj, compare_lt_iff_lt]

theorem le_iff_value_le : v ≤ w ↔ value v ≤ value w := by
  have hle : v ≤ w ↔ v.toModel.unpack.le w.toModel.unpack = true := decide_eq_true_iff
  rw [hle, UnpackedFloat.le, (isFit_unpack hv).compare_eq (isFit_unpack hw), value_eq, value_eq]
  show (compare _ _).isLE = true ↔ _
  rw [← Ordering.ne_gt_iff_isLE]
  exact compare_le_iff_le

theorem beq_iff_value_eq : (v == w) = true ↔ value v = value w := by
  show v.toModel.unpack.beq w.toModel.unpack = true ↔ _
  rw [UnpackedFloat.beq, (isFit_unpack hv).compare_eq (isFit_unpack hw), value_eq, value_eq,
    beq_iff_eq, Option.some_inj, compare_eq_iff_eq]

/-- Finite doubles that are not zero are told apart by the numbers that they stand for. -/
theorem eq_of_value_eq (hne : value v ≠ 0) (h : value v = value w) : v = w := by
  rw [value_eq] at hne
  rw [value_eq, value_eq] at h
  exact eq_of_unpack_eq ((isFit_unpack hv).eq_of_number_eq (isFit_unpack hw) hne h)

end

end ZeroCurve.Double

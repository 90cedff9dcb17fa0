import ZeroCurve.Proofs.Scalar.Rounding

/-!
# Exact results, rounded

The sum, difference, product or quotient of two finite doubles is the exact result, rounded to the
nearest number that has 53 bits and no smaller exponent than doubles have. Nothing is said here of
exponents that are too large.
-/

namespace ZeroCurve.Double

open Float.Model
open Float.Model.UnpackedFloat

/-- The number that an unpacked one stands for; zero for those that stand for none. -/
def number : UnpackedFloat → ℚ
  | .finite s m e _ => s.apply m * 2 ^ e
  | _ => 0

/-- Whether an unpacked number is one of a finite double. -/
def IsFit : UnpackedFloat → Prop
  | .notANumber | .infinity _ => False
  | .zero _ => True
  | .finite _ m e _ => IsCanonical m e ∧ e ≤ 971

/-- One or minus one. -/
def signFactor (s : Sign) : ℚ := s.apply 1

theorem apply_eq (s : Sign) (n : Int) : (s.apply n : ℚ) = signFactor s * n := by
  cases s with
  | negative =>
    show ((-n : Int) : ℚ) = ((-1 : Int) : ℚ) * n
    push_cast
    ring
  | positive => exact (one_mul _).symm

@[simp]
theorem signFactor_positive : signFactor .positive = 1 := rfl

@[simp]
theorem signFactor_negative : signFactor .negative = -1 := rfl

theorem abs_signFactor (s : Sign) : |signFactor s| = 1 := by
  cases s <;> rfl

theorem signFactor_neg (s : Sign) : signFactor (-s) = -signFactor s := by
  cases s <;> rfl

theorem signFactor_mul_self (s : Sign) : signFactor s * signFactor s = 1 := by
  rw [← abs_mul_abs_self, abs_signFactor, one_mul]

theorem signFactor_mul (s s' : Sign) : signFactor (s * s') = signFactor s * signFactor s' := by
  cases s with
  | negative =>
    have hsign : .negative * s' = -s' := by cases s' <;> rfl
    rw [hsign, signFactor_neg, signFactor_negative, neg_one_mul]
  | positive =>
    have hsign : .positive * s' = s' := by cases s' <;> rfl
    rw [hsign, signFactor_positive, one_mul]

theorem signFactor_div (s s' : Sign) : signFactor (s / s') = signFactor s / signFactor s' := by
  have hself := signFactor_mul_self s'
  have hsign : s / s' = s * s' := rfl
  rw [hsign, signFactor_mul, eq_div_iff (left_ne_zero_of_mul_eq_one hself), mul_assoc, hself,
    mul_one]

theorem number_finite (s : Sign) (m : Nat) (e : Int) (hm : 0 < m) :
    number (.finite s m e hm) = signFactor s * (m * 2 ^ e) := by
  rw [number, apply_eq, Int.cast_natCast, mul_assoc]

theorem abs_number_finite (s : Sign) (m : Nat) (e : Int) (hm : 0 < m) :
    |number (.finite s m e hm)| = m * 2 ^ e := by
  have hsize : (0 : ℚ) ≤ m * 2 ^ e := by positivity
  rw [number_finite, abs_mul, abs_signFactor, one_mul, abs_of_nonneg hsize]

theorem neg_apply (s : Sign) (n : Int) : (-s).apply n = -s.apply n := by
  cases s
  · exact (Int.neg_neg n).symm
  · rfl

theorem number_neg (u : UnpackedFloat) : number u.neg = -number u := by
  cases u with
  | notANumber | infinity s | zero s => exact neg_zero.symm
  | finite s m e hm =>
    show number (.finite (-s) m e hm) = -number (.finite s m e hm)
    rw [number_finite, number_finite, signFactor_neg, neg_mul]

theorem IsFit.neg {u : UnpackedFloat} (h : IsFit u) : IsFit u.neg := by
  cases u with
  | notANumber | infinity s => exact h.elim
  | zero s => trivial
  | finite s m e hm => exact h

/-- The carry keeps the number. -/
theorem IsRounded.number_carry {x : ℚ} {m : Nat} {e : Int} (h : IsRounded x m e) (s : Sign) :
    number (carry s m e) = signFactor s * (m * 2 ^ e) := by
  rcases h.carry_cases s with ⟨rfl, hcarry⟩ | ⟨n, k, hn, -, hvalue, hcarry⟩
  · rw [hcarry, Nat.cast_zero, zero_mul, mul_zero]
    rfl
  · rw [hcarry, number_finite, hvalue]

/-- What is a double already is not changed by rounding. -/
theorem IsCanonical.isRounded {m : Nat} {e : Int} (h : IsCanonical m e) :
    IsRounded (m * 2 ^ e) m e := by
  have hunit : (0 : ℚ) < 2 ^ e := by positivity
  constructor
  case le => exact mul_le_mul_of_nonneg_right (by linarith) hunit.le
  case ge => exact mul_le_mul_of_nonneg_right (by linarith) hunit.le
  case even =>
    rw [mul_left_inj' hunit.ne', mul_left_inj' hunit.ne']
    rintro (htie | htie) <;> linarith
  case least => exact h.least
  case full =>
    refine h.full.symm.imp_right fun hm => mul_le_mul_of_nonneg_right ?_ hunit.le
    exact_mod_cast hm
  case lt =>
    refine mul_lt_mul_of_pos_right ?_ hunit
    exact_mod_cast h.lt

/-- Whether an unpacked number is an exact one, rounded. -/
def Rounds (x : ℚ) (u : UnpackedFloat) : Prop :=
  ∃ s m e, IsRounded |x| m e ∧ x = signFactor s * |x| ∧ u = carry s m e

/-- Whether 53 bits and the exponents of doubles, or larger ones, are enough for a number. -/
def IsRepresentable (x : ℚ) : Prop :=
  ∃ (m : Nat) (e : Int), m < 2 ^ 53 ∧ -1074 ≤ e ∧ |x| = m * 2 ^ e

theorem isRepresentable_zero : IsRepresentable 0 := ⟨0, 0, by decide, by decide, by simp⟩

theorem IsRepresentable.neg {x : ℚ} (h : IsRepresentable x) : IsRepresentable (-x) := by
  unfold IsRepresentable
  rw [abs_neg]
  exact h

theorem IsFit.isRepresentable {u : UnpackedFloat} (h : IsFit u) : IsRepresentable (number u) := by
  cases u with
  | notANumber | infinity s => exact h.elim
  | zero s => exact ⟨0, -1074, by decide, le_rfl, by simp [number]⟩
  | finite s m e hm => exact ⟨m, e, h.1.lt, h.1.least, abs_number_finite s m e hm⟩

section

variable {x z : ℚ} {u : UnpackedFloat}

theorem Rounds.neg (h : Rounds x u) : Rounds (-x) u.neg := by
  obtain ⟨s, m, e, hrounded, hsign, rfl⟩ := h
  refine ⟨-s, m, e, by rwa [abs_neg], ?_, ?_⟩
  · rw [abs_neg, signFactor_neg, neg_mul, ← hsign]
  · unfold carry
    split
    · rfl
    · split <;> rfl

/-- Rounding does not cross what can be represented. -/
theorem Rounds.number_le (h : Rounds x u) (hz : IsRepresentable z) (hx : x ≤ z) :
    number u ≤ z := by
  obtain ⟨s, m, e, hrounded, hsign, rfl⟩ := h
  obtain ⟨n, k, hn, hk, hsize⟩ := hz
  have hm : (0 : ℚ) ≤ m * 2 ^ e := by positivity
  rw [hrounded.number_carry]
  cases s with
  | positive =>
    rw [signFactor_positive, one_mul] at hsign ⊢
    have hnonneg : 0 ≤ z := (abs_nonneg x).trans (hsign.symm.trans_le hx)
    rw [abs_of_nonneg hnonneg] at hsize
    rw [hsize]
    exact hrounded.le_of_le hn hk (by rw [← hsign, ← hsize]; exact hx)
  | negative =>
    rw [signFactor_negative, neg_one_mul] at hsign ⊢
    rcases le_total 0 z with hz | hz
    · exact (neg_nonpos.2 hm).trans hz
    · rw [abs_of_nonpos hz] at hsize
      have hlarge : (n * 2 ^ k : ℚ) ≤ |x| := by linarith
      have hround := hrounded.ge_of_ge hn hk hlarge
      linarith

theorem Rounds.le_number (h : Rounds x u) (hz : IsRepresentable z) (hx : z ≤ x) :
    z ≤ number u := by
  have hneg := h.neg.number_le hz.neg (neg_le_neg hx)
  rw [number_neg] at hneg
  exact neg_le_neg_iff.1 hneg

theorem Rounds.number_eq (h : Rounds x u) (hx : IsRepresentable x) : number u = x :=
  le_antisymm (h.number_le hx le_rfl) (h.le_number hx le_rfl)

/-- What is rounded to a number whose mantissa is not the least of its exponent was not more than half
a unit below it. -/
theorem Rounds.ge_of_number_eq {n : Nat} {k : Int} (h : Rounds x u) (hn : IsCanonical n k)
    (hleast : 2 ^ 52 < n) (hu : number u = n * 2 ^ k) : (n - 1 / 2) * 2 ^ k ≤ x := by
  obtain ⟨s, m, e, hrounded, hsign, rfl⟩ := h
  have hpos : (0 : ℚ) < n * 2 ^ k := by
    have : (0 : ℚ) < n := by exact_mod_cast Nat.zero_lt_of_lt hleast
    positivity
  have hm : (0 : ℚ) ≤ m * 2 ^ e := by positivity
  rw [hrounded.number_carry] at hu
  cases s with
  | negative =>
    rw [signFactor_negative, neg_one_mul] at hu
    linarith
  | positive =>
    rw [signFactor_positive, one_mul] at hu hsign
    rcases Nat.lt_or_eq_of_le hrounded.le_two_pow with hlt | rfl
    · obtain ⟨rfl, rfl⟩ := (hrounded.isCanonical_of_lt hlt).eq_of_eq hn hu
      rw [hsign]
      exact hrounded.ge
    · -- a mantissa that has come up to the next power of two is the least one there
      have htwice : ((2 ^ 52 : Nat) * 2 ^ (e + 1) : ℚ) = n * 2 ^ k := by
        rw [← hu, zpow_add_one₀ two_ne_zero]
        push_cast
        ring
      obtain ⟨rfl, -⟩ := (isCanonical_two_pow hrounded.least).eq_of_eq hn htwice
      exact absurd hleast (lt_irrefl _)

theorem IsRounded.rounds {y : ℚ} {m : Nat} {e : Int} (h : IsRounded y m e) (hy : 0 ≤ y) {s : Sign}
    (hx : x = signFactor s * y) (hu : u = carry s m e) : Rounds x u := by
  have habs : |x| = y := by rw [hx, abs_mul, abs_signFactor, one_mul, abs_of_nonneg hy]
  refine ⟨s, m, e, ?_, ?_, hu⟩
  · rwa [habs]
  · rwa [habs]

theorem rounds_zero (s : Sign) : Rounds 0 (.zero s) := by
  have hcanonical : IsCanonical 0 (-1074) := ⟨by decide, le_rfl, .inr rfl⟩
  exact hcanonical.isRounded.rounds (by simp) (by simp) rfl

theorem IsFit.rounds (h : IsFit u) : Rounds (number u) u := by
  cases u with
  | notANumber | infinity s => exact h.elim
  | zero s => exact rounds_zero s
  | finite s m e hm =>
    refine h.1.isRounded.rounds (by positivity) (number_finite s m e hm) ?_
    rw [carry, dif_neg hm.ne', if_pos h.1.lt]

/-- A whole number of units, rounded. -/
theorem rounds_normalize (n : Int) (e : Int) (s : Sign) :
    Rounds (n * 2 ^ e) (UnpackedFloat.normalize Format.binary64 n e s) := by
  unfold UnpackedFloat.normalize
  rcases Int.lt_trichotomy n 0 with hneg | rfl | hpos
  · obtain ⟨r, t, hrounded, hround⟩ := round_eq_carry (m := (-n).toNat) (by omega) e
    have hsize : (n : ℚ) = -((-n).toNat : Nat) := by
      have : n = -((-n).toNat : Int) := by omega
      exact_mod_cast this
    rw [Int.compare_eq_lt.2 hneg]
    refine hrounded.rounds (s := .negative) (by positivity) ?_ (hround _)
    rw [signFactor_negative, hsize, neg_mul, neg_one_mul]
  · rw [Int.cast_zero, zero_mul]
    exact rounds_zero s
  · obtain ⟨r, t, hrounded, hround⟩ := round_eq_carry (m := n.toNat) (by omega) e
    have hsize : (n : ℚ) = (n.toNat : Nat) := by
      have : n = (n.toNat : Int) := by omega
      exact_mod_cast this
    rw [Int.compare_eq_gt.2 hpos]
    refine hrounded.rounds (s := .positive) (by positivity) ?_ (hround _)
    rw [signFactor_positive, hsize, one_mul]

theorem rounds_ofNat (n : Nat) : Rounds n (UnpackedFloat.ofNat Format.binary64 n) := by
  have h := rounds_normalize n 0 .positive
  rw [zpow_zero, mul_one, Int.cast_natCast] at h
  exact h

/-- Mantissas of doubles have a product that is long enough to be rounded as it stands, or one that
is a whole number of the smallest units and less. -/
theorem IsCanonical.mul_fits {m n : Nat} {e k : Int} (hm : IsCanonical m e) (hn : IsCanonical n k)
    (hmpos : 0 < m) (hnpos : 0 < n) : 52 ≤ (m * n).log2 ∨ e + k ≤ -1074 := by
  have hne : m * n ≠ 0 := (Nat.mul_pos hmpos hnpos).ne'
  rcases hm.full with hfull | rfl
  · exact .inl ((Nat.le_log2 hne).2 (hfull.trans (Nat.le_mul_of_pos_right m hnpos)))
  · rcases hn.full with hfull | rfl
    · exact .inl ((Nat.le_log2 hne).2 (hfull.trans (Nat.le_mul_of_pos_left n hmpos)))
    · exact .inr (by decide)

end

section

variable {u w : UnpackedFloat} (hu : IsFit u) (hw : IsFit w)
include hu hw

theorem rounds_mul : Rounds (number u * number w) (UnpackedFloat.mul Format.binary64 u w) := by
  cases u with
  | notANumber | infinity s => exact hu.elim
  | zero s =>
    have hzero : number (.zero s) * number w = 0 := zero_mul _
    rw [hzero]
    cases w with
    | notANumber | infinity s' => exact hw.elim
    | zero s' | finite s' m' e' hm' => exact rounds_zero _
  | finite s m e hm =>
    cases w with
    | notANumber | infinity s' => exact hw.elim
    | zero s' =>
      have hzero : number (.finite s m e hm) * number (.zero s') = 0 := mul_zero _
      rw [hzero]
      exact rounds_zero _
    | finite s' m' e' hm' =>
      obtain ⟨r, t, hrounded, hround⟩ := mul_eq_carry (hu.1.mul_fits hw.1 hm hm')
      refine hrounded.rounds (s := s * s') (by positivity) ?_ (hround _)
      rw [number_finite, number_finite, signFactor_mul, mul_mul_mul_comm]

theorem rounds_div (hne : number w ≠ 0) :
    Rounds (number u / number w) (UnpackedFloat.div Format.binary64 u w) := by
  cases w with
  | notANumber | infinity s' => exact hw.elim
  | zero s' => exact absurd rfl hne
  | finite s' m' e' hm' =>
    cases u with
    | notANumber | infinity s => exact hu.elim
    | zero s =>
      have hzero : number (.zero s) / number (.finite s' m' e' hm') = 0 := zero_div _
      rw [hzero]
      exact rounds_zero _
    | finite s m e hm =>
      obtain ⟨r, t, hrounded, hround⟩ := divCore_eq_carry hm e hm' e'
      refine hrounded.rounds (s := s / s') (by positivity) ?_ (hround _)
      rw [number_finite, number_finite, signFactor_div, mul_div_mul_comm]

end

/-- A signed mantissa counted in smaller units. -/
theorem apply_shiftLeft_mul {k e : Int} (h : k ≤ e) (s : Sign) (m : Nat) :
    (s.apply (m <<< (e - k).toNat : Nat) * 2 ^ k : ℚ) = s.apply m * 2 ^ e := by
  obtain ⟨d, rfl⟩ := Int.le.dest h
  have hshift : (k + d - k).toNat = d := by omega
  rw [hshift, Nat.shiftLeft_eq, zpow_add₀ two_ne_zero, zpow_natCast, apply_eq, apply_eq]
  push_cast
  ring

section

variable {u w : UnpackedFloat} (hu : IsFit u) (hw : IsFit w)
include hu hw

theorem rounds_add : Rounds (number u + number w) (UnpackedFloat.add Format.binary64 u w) := by
  cases u with
  | notANumber | infinity s => exact hu.elim
  | zero s =>
    have hzero : number (.zero s) + number w = number w := zero_add _
    rw [hzero]
    cases w with
    | notANumber | infinity s' => exact hw.elim
    | zero s' =>
      show Rounds 0 (if s == s' then .zero s else .zero .positive)
      split <;> exact rounds_zero _
    | finite s' m' e' hm' => exact hw.rounds
  | finite s m e hm =>
    cases w with
    | notANumber | infinity s' => exact hw.elim
    | zero s' =>
      have hzero : number (.finite s m e hm) + number (.zero s') = number (.finite s m e hm) :=
        add_zero _
      rw [hzero]
      exact hu.rounds
    | finite s' m' e' hm' =>
      have hsum : number (.finite s m e hm) + number (.finite s' m' e' hm') =
          ((s.apply (m <<< (e - min e e').toNat : Nat) +
            s'.apply (m' <<< (e' - min e e').toNat : Nat) : Int) : ℚ) * 2 ^ min e e' := by
        rw [Int.cast_add, add_mul, apply_shiftLeft_mul (min_le_left e e'),
          apply_shiftLeft_mul (min_le_right e e')]
        rfl
      rw [hsum]
      exact rounds_normalize _ _ _

end

/-- A difference is the sum with the second number negated. -/
theorem unpacked_sub_eq_add_neg (f : Format) (u w : UnpackedFloat) :
    UnpackedFloat.sub f u w = UnpackedFloat.add f u w.neg := by
  cases u with
  | notANumber => rfl
  | infinity s | zero s => cases w <;> rfl
  | finite s m e hm =>
    cases w with
    | finite s' m' e' hm' =>
      simp only [UnpackedFloat.sub, UnpackedFloat.add, UnpackedFloat.neg, neg_apply,
        Int.sub_eq_add_neg]
    | _ => rfl

theorem rounds_sub {u w : UnpackedFloat} (hu : IsFit u) (hw : IsFit w) :
    Rounds (number u - number w) (UnpackedFloat.sub Format.binary64 u w) := by
  rw [unpacked_sub_eq_add_neg, sub_eq_add_neg, ← number_neg]
  exact rounds_add hu hw.neg

end ZeroCurve.Double

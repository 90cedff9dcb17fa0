import ZeroCurve.Proofs.Scalar.Canonical

/-!
# Rounding to doubles

The operations on doubles cut an exact quotient down to a mantissa of 53 bits, and two more bits
remember enough of the rest to round it. Here the rounded number is compared with the exact one: it
is at most half a unit of its last place away, so rounding does not cross a double, and what is more
than half of the least positive double does not become zero.
-/

namespace ZeroCurve.Double

open Float.Model
open Float.Model.UnpackedFloat

/-- Whether an extended mantissa tells what rounding needs to know of a quotient: its whole part,
the next binary digit, and whether anything is left behind that. -/
structure Tells (em : ExtendedMantissa) (num den : Nat) : Prop where
  mantissa : em.mantissa = num / den
  roundBit : em.roundBit = true ↔ 2 * num / den % 2 ≠ 0
  stickyBit : em.stickyBit = true ↔ 2 * num % den ≠ 0

theorem tells_exact (m : Nat) : Tells (.ofMantissaAndAccuracy m .exact) m 1 where
  mantissa := (Nat.div_one m).symm
  roundBit := by simp [ExtendedMantissa.ofMantissaAndAccuracy]
  stickyBit := by simp [ExtendedMantissa.ofMantissaAndAccuracy, Nat.mod_one]

theorem two_mul_div_cases (num : Nat) {den : Nat} (hden : 0 < den) :
    (2 * (num % den) < den ∧ 2 * num / den = 2 * (num / den) ∧
      2 * num % den = 2 * (num % den)) ∨
    (den ≤ 2 * (num % den) ∧ 2 * num / den = 2 * (num / den) + 1 ∧
      2 * num % den = 2 * (num % den) - den) := by
  have hnum : 2 * num = den * (2 * (num / den)) + 2 * (num % den) := by
    conv_lhs => rw [← Nat.div_add_mod num den]
    ring
  have hrest : num % den < den := Nat.mod_lt num hden
  rcases Nat.lt_or_ge (2 * (num % den)) den with h | h
  · refine .inl ⟨h, ?_, ?_⟩
    · rw [hnum, Nat.mul_add_div hden, Nat.div_eq_of_lt h, Nat.add_zero]
    · rw [hnum, Nat.mul_add_mod, Nat.mod_eq_of_lt h]
  · have hsplit : 2 * (num % den) = den * 1 + (2 * (num % den) - den) := by omega
    have hless : 2 * (num % den) - den < den := by omega
    refine .inr ⟨h, ?_, ?_⟩
    · rw [hnum, Nat.mul_add_div hden, hsplit, Nat.mul_add_div hden, Nat.div_eq_of_lt hless]
    · rw [hnum, Nat.mul_add_mod, hsplit, Nat.mul_add_mod, Nat.mod_eq_of_lt hless]
      omega

theorem tells_quotient (num : Nat) {den : Nat} (hden : 0 < den) :
    Tells (.ofMantissaAndAccuracy (num / den) (accuracyOfFraction (num % den) den)) num den := by
  unfold accuracyOfFraction
  rcases two_mul_div_cases num hden with ⟨hlt, hdiv, hmod⟩ | ⟨hge, hdiv, hmod⟩
  · by_cases hzero : num % den = 0
    · rw [if_pos hzero]
      constructor <;> simp [ExtendedMantissa.ofMantissaAndAccuracy, hdiv, hmod, hzero]
    · rw [if_neg hzero, Nat.compare_eq_lt.2 hlt]
      constructor <;> simp [ExtendedMantissa.ofMantissaAndAccuracy, hdiv, hmod, hzero]
  · have hzero : num % den ≠ 0 := by omega
    rw [if_neg hzero]
    rcases Nat.lt_or_eq_of_le hge with hgt | heq
    · rw [Nat.compare_eq_gt.2 hgt]
      constructor <;> simp [ExtendedMantissa.ofMantissaAndAccuracy, hdiv, hmod]
      omega
    · rw [Nat.compare_eq_eq.2 heq.symm]
      constructor <;> simp [ExtendedMantissa.ofMantissaAndAccuracy, hdiv, hmod, ← heq]

theorem Tells.shiftRightOne {em : ExtendedMantissa} {num den : Nat} (hden : 0 < den)
    (h : Tells em num den) : Tells em.shiftRightOne num (2 * den) where
  mantissa := by
    rw [ExtendedMantissa.shiftRightOne, h.mantissa, Nat.div_div_eq_div_mul, Nat.mul_comm]
  roundBit := by
    rw [ExtendedMantissa.shiftRightOne, h.mantissa, Nat.mul_div_mul_left num den Nat.two_pos,
      bne_iff_ne]
  stickyBit := by
    rw [ExtendedMantissa.shiftRightOne, Bool.or_eq_true, h.roundBit, h.stickyBit,
      Nat.mul_mod_mul_left]
    rcases two_mul_div_cases num hden with ⟨-, hdiv, hmod⟩ | ⟨hge, hdiv, hmod⟩ <;>
      rw [hdiv, hmod] <;> omega

theorem Tells.shiftRight {em : ExtendedMantissa} {num den : Nat} (hden : 0 < den)
    (h : Tells em num den) (k : Nat) : Tells (em >>> k) num (2 ^ k * den) := by
  induction k with
  | zero =>
    rw [Nat.pow_zero, Nat.one_mul]
    exact h
  | succ k ih =>
    have hstep := ih.shiftRightOne (Nat.mul_pos (Nat.two_pow_pos k) hden)
    rw [← Nat.mul_assoc, ← Nat.pow_succ'] at hstep
    exact hstep

theorem roundedMantissa_down (m : Nat) (s : Bool) :
    ExtendedMantissa.roundedMantissa ⟨m, false, s⟩ = m := by
  cases s <;> rfl

/-- From one half on the mantissa is rounded up, but on a tie to the even one of the two. -/
theorem roundedMantissa_up (m : Nat) (s : Bool) :
    ExtendedMantissa.roundedMantissa ⟨m, true, s⟩ = m + 1 ∨
      (s = false ∧ ExtendedMantissa.roundedMantissa ⟨m, true, s⟩ = m) := by
  cases s with
  | true => exact .inl rfl
  | false =>
    have htie : ExtendedMantissa.roundedMantissa ⟨m, true, false⟩ = m + m % 2 := rfl
    rw [htie]
    rcases Nat.mod_two_eq_zero_or_one m with hpar | hpar
    · exact .inr ⟨rfl, by omega⟩
    · exact .inl (by omega)

/-- Rounding stays within one half. -/
theorem Tells.roundedMantissa_near {em : ExtendedMantissa} {num den : Nat} (hden : 0 < den)
    (h : Tells em num den) :
    2 * num ≤ 2 * (den * em.roundedMantissa) + den ∧
      2 * (den * em.roundedMantissa) ≤ 2 * num + den := by
  obtain ⟨m, r, s⟩ := em
  obtain ⟨hm, hr, hs⟩ := h
  have hnum := Nat.div_add_mod num den
  have hrest := Nat.mod_lt num hden
  dsimp only at hm hr hs
  rw [← hm] at hnum
  rcases two_mul_div_cases num hden with ⟨hlt, hdiv, hmod⟩ | ⟨hge, hdiv, hmod⟩
  · have hround : r = false := by
      rw [← Bool.not_eq_true, hr, hdiv]
      omega
    rw [hround, roundedMantissa_down]
    omega
  · have hround : r = true := by
      rw [hr, hdiv]
      omega
    rw [hround]
    rcases roundedMantissa_up m s with hup | ⟨htie, hdown⟩
    · rw [hup, Nat.mul_succ]
      omega
    · have hhalf : 2 * num % den = 0 := by
        by_contra hne
        exact Bool.false_ne_true (htie.symm.trans (hs.2 hne))
      rw [hdown]
      omega

/-- Of two whole numbers that are equally near, rounding takes the even one. -/
theorem Tells.even_roundedMantissa {em : ExtendedMantissa} {num den : Nat} (hden : 0 < den)
    (h : Tells em num den)
    (htie : 2 * num = 2 * (den * em.roundedMantissa) + den ∨
      2 * num + den = 2 * (den * em.roundedMantissa)) : Even em.roundedMantissa := by
  obtain ⟨m, r, s⟩ := em
  obtain ⟨hm, hr, hs⟩ := h
  have hnum := Nat.div_add_mod num den
  have hrest := Nat.mod_lt num hden
  dsimp only at hm hr hs
  rw [← hm] at hnum
  rcases two_mul_div_cases num hden with ⟨hlt, hdiv, hmod⟩ | ⟨hge, hdiv, hmod⟩
  · have hround : r = false := by
      rw [← Bool.not_eq_true, hr, hdiv]
      omega
    rw [hround, roundedMantissa_down] at htie
    omega
  · have hround : r = true := by
      rw [hr, hdiv]
      omega
    cases s with
    | false =>
      rw [hround]
      show Even (m + m % 2)
      rw [Nat.even_iff]
      omega
    | true =>
      have hover : 2 * num % den ≠ 0 := hs.1 rfl
      have hup : ExtendedMantissa.roundedMantissa ⟨m, true, true⟩ = m + 1 := rfl
      rw [hround, hup, Nat.mul_succ] at htie
      omega

theorem targetExponent_eq (m : Nat) (e : Int) :
    Format.binary64.targetExponent (totalExponent m e) = max ((m.log2 : Int) + e - 52) (-1074) := by
  simp only [Format.targetExponent, totalExponent, Format.mantissaBits, Format.minExponent]
  omega

/-- An exact number, a mantissa and an exponent that it is rounded to: it is at most half a unit
away, half a unit only from an even mantissa, and the unit is the smallest one that 53 bits allow.
-/
structure IsRounded (x : ℚ) (m : Nat) (e : Int) : Prop where
  le : x ≤ (m + 1 / 2) * 2 ^ e
  ge : (m - 1 / 2) * 2 ^ e ≤ x
  even : x = (m + 1 / 2) * 2 ^ e ∨ x = (m - 1 / 2) * 2 ^ e → Even m
  least : -1074 ≤ e
  full : e = -1074 ∨ 2 ^ 52 * 2 ^ e ≤ x
  lt : x < 2 ^ 53 * 2 ^ e

/-- The unpacked number of a rounded mantissa, which may have come up to the next power of two. -/
def carry (s : Sign) (m : Nat) (e : Int) : UnpackedFloat :=
  if h : m = 0 then .zero s
  else if m < 2 ^ 53 then .finite s m e (Nat.pos_of_ne_zero h)
  else .finite s (2 ^ 52) (e + 1) (Nat.two_pow_pos 52)

theorem shiftToTargetExponent_of_lt {m : Nat} {e : Int} (hm : m < 2 ^ 53) (he : -1074 ≤ e) :
    shiftToTargetExponent Format.binary64 m e .exact = (⟨m, false, false⟩, e) := by
  have hlog : m.log2 ≤ 52 := by
    by_cases hzero : m = 0
    · rw [hzero]
      decide
    · exact Nat.le_of_lt_succ ((Nat.log2_lt hzero).2 hm)
  have hnone : (Format.binary64.targetExponent (totalExponent m e) - e).toNat = 0 := by
    rw [targetExponent_eq]
    omega
  simp only [shiftToTargetExponent, shiftToExponent, hnone]
  rw [Int.ofNat_zero, Int.add_zero]
  rfl

theorem shiftToTargetExponent_two_pow {e : Int} (he : -1074 ≤ e) :
    shiftToTargetExponent Format.binary64 (2 ^ 53) e .exact = (⟨2 ^ 52, false, false⟩, e + 1) := by
  have hone : (Format.binary64.targetExponent (totalExponent (2 ^ 53) e) - e).toNat = 1 := by
    rw [targetExponent_eq, Nat.log2_two_pow]
    omega
  simp only [shiftToTargetExponent, shiftToExponent, hone]
  rfl

theorem IsRounded.le_two_pow {x : ℚ} {m : Nat} {e : Int} (h : IsRounded x m e) : m ≤ 2 ^ 53 := by
  have hlt := h.ge.trans_lt h.lt
  have hunit : (0 : ℚ) < 2 ^ e := by positivity
  have hm : (m : ℚ) < (2 ^ 53 + 1 : Nat) := by
    have := lt_of_mul_lt_mul_right hlt hunit.le
    push_cast
    linarith
  exact Nat.lt_succ_iff.1 (Nat.cast_lt.1 hm)

theorem two_pow_log2_le {num den : Nat} (h : num / den ≠ 0) :
    (2 : ℚ) ^ (num / den).log2 ≤ num / den := by
  have hpow : ((2 ^ (num / den).log2 : Nat) : ℚ) ≤ (num / den : Nat) :=
    Nat.cast_le.2 (Nat.log2_self_le h)
  rw [Nat.cast_pow] at hpow
  exact hpow.trans Nat.cast_div_le

theorem lt_two_pow_log2 (num den : Nat) : (num / den : ℚ) < 2 ^ ((num / den).log2 + 1) := by
  have hpow : ((num / den + 1 : Nat) : ℚ) ≤ ((2 ^ ((num / den).log2 + 1) : Nat) : ℚ) :=
    Nat.cast_le.2 Nat.lt_log2_self
  have hfloor := Nat.lt_floor_add_one (num / den : ℚ)
  rw [Nat.floor_div_eq_div] at hfloor
  push_cast at hpow hfloor
  exact hfloor.trans_le hpow

/-- A quotient that is shifted to its target exponent and rounded. -/
theorem isRounded_shift {num den k : Nat} {e t : Int} {em : ExtendedMantissa} (hden : 0 < den)
    (h : Tells em num (2 ^ k * den)) (hk : e + k = t)
    (ht : t = max (((num / den).log2 : Int) + e - 52) (-1074))
    (hfits : 52 ≤ (num / den).log2 ∨ e ≤ -1074) :
    IsRounded (num / den * 2 ^ e) em.roundedMantissa t := by
  have hdenRat : (0 : ℚ) < den := Nat.cast_pos.2 hden
  have hunit : (0 : ℚ) < 2 ^ e := by positivity
  have hscale : (2 : ℚ) ^ t = 2 ^ k * 2 ^ e := by
    rw [← hk, zpow_add₀ two_ne_zero, zpow_natCast, mul_comm]
  have hdenShift : 0 < 2 ^ k * den := Nat.mul_pos (Nat.two_pow_pos k) hden
  obtain ⟨hlow, hhigh⟩ := h.roundedMantissa_near hdenShift
  have heven := h.even_roundedMantissa hdenShift
  generalize em.roundedMantissa = r at hlow hhigh heven ⊢
  have hlowRat : (2 * num : ℚ) ≤ 2 * (2 ^ k * den * r) + 2 ^ k * den := by exact_mod_cast hlow
  have hhighRat : (2 * (2 ^ k * den * r) : ℚ) ≤ 2 * num + 2 ^ k * den := by exact_mod_cast hhigh
  constructor
  case le =>
    have : (num / den : ℚ) ≤ (r + 1 / 2) * 2 ^ k := by
      rw [div_le_iff₀ hdenRat]
      linarith
    rw [hscale, ← mul_assoc]
    exact mul_le_mul_of_nonneg_right this hunit.le
  case ge =>
    have : (r - 1 / 2) * 2 ^ k ≤ (num / den : ℚ) := by
      rw [le_div_iff₀ hdenRat]
      linarith
    rw [hscale, ← mul_assoc]
    exact mul_le_mul_of_nonneg_right this hunit.le
  case even =>
    rw [hscale, ← mul_assoc, ← mul_assoc, mul_left_inj' hunit.ne', mul_left_inj' hunit.ne',
      div_eq_iff hdenRat.ne', div_eq_iff hdenRat.ne']
    refine fun htie => heven (htie.imp (fun hup => ?_) fun hdown => ?_)
    · have : (2 * num : ℚ) = 2 * (2 ^ k * den * r) + 2 ^ k * den := by linarith
      exact_mod_cast this
    · have : (2 * num + 2 ^ k * den : ℚ) = 2 * (2 ^ k * den * r) := by linarith
      exact_mod_cast this
  case least => omega
  case full =>
    by_cases hleast : t = -1074
    · exact .inl hleast
    · have hlog : (num / den).log2 = 52 + k := by omega
      have hne : num / den ≠ 0 := by
        intro hzero
        rw [hzero, Nat.log2_zero] at hlog
        omega
      have hpow := two_pow_log2_le hne
      rw [hlog, pow_add] at hpow
      refine .inr ?_
      rw [hscale, ← mul_assoc]
      exact mul_le_mul_of_nonneg_right hpow hunit.le
  case lt =>
    have hpow : (2 : ℚ) ^ ((num / den).log2 + 1) ≤ 2 ^ 53 * 2 ^ k := by
      rw [← pow_add]
      exact pow_le_pow_right₀ one_le_two (by omega)
    rw [hscale, ← mul_assoc]
    exact mul_lt_mul_of_pos_right ((lt_two_pow_log2 num den).trans_le hpow) hunit

theorem mantissa_ofMantissaAndAccuracy (m : Nat) (a : Accuracy) :
    (ExtendedMantissa.ofMantissaAndAccuracy m a).mantissa = m := by
  cases a with
  | exact => rfl
  | inexact o => cases o <;> rfl

/-- What rounding makes of a quotient that its mantissa and accuracy tell. -/
theorem roundWithAccuracy_eq_carry {m num den : Nat} {e : Int} {a : Accuracy} (hden : 0 < den)
    (h : Tells (.ofMantissaAndAccuracy m a) num den) (hfits : 52 ≤ m.log2 ∨ e ≤ -1074) :
    ∃ r t, IsRounded (num / den * 2 ^ e) r t ∧
      ∀ s, roundWithAccuracy Format.binary64 s m e a = carry s r t := by
  obtain rfl : m = num / den := (mantissa_ofMantissaAndAccuracy m a).symm.trans h.mantissa
  have htarget := targetExponent_eq (num / den) e
  obtain ⟨k, hk⟩ : ∃ k : Nat, k =
      (Format.binary64.targetExponent (totalExponent (num / den) e) - e).toNat := ⟨_, rfl⟩
  have hrounded := isRounded_shift (t := e + k) hden (h.shiftRight hden k) rfl (by omega) hfits
  refine ⟨_, _, hrounded, fun s => ?_⟩
  have hfirst : shiftToTargetExponent Format.binary64 (num / den) e a =
      (ExtendedMantissa.ofMantissaAndAccuracy (num / den) a >>> k, e + k) := by
    rw [hk]
    rfl
  unfold roundWithAccuracy
  rw [hfirst]
  dsimp only
  have hmax := hrounded.le_two_pow
  have hleast := hrounded.least
  generalize (ExtendedMantissa.ofMantissaAndAccuracy (num / den) a >>> k).roundedMantissa = r
    at hmax ⊢
  unfold carry
  -- the second shift has something to do only if rounding came up to the next power of two
  rcases Nat.lt_or_eq_of_le hmax with hlt | heq
  · rw [shiftToTargetExponent_of_lt hlt hleast]
    simp only [if_pos hlt]
  · rw [heq, shiftToTargetExponent_two_pow hleast]
    rfl

/-- What rounding makes of a number that is known exactly. -/
theorem roundWithAccuracy_exact {m : Nat} {e : Int} (hfits : 52 ≤ m.log2 ∨ e ≤ -1074) :
    ∃ r t, IsRounded (m * 2 ^ e) r t ∧
      ∀ s, roundWithAccuracy Format.binary64 s m e .exact = carry s r t := by
  obtain ⟨r, t, hrounded, hround⟩ := roundWithAccuracy_eq_carry Nat.one_pos (tells_exact m) hfits
  rw [Nat.cast_one, div_one] at hrounded
  exact ⟨r, t, hrounded, hround⟩

/-- What rounding makes of a product whose mantissa is long enough, or whose exponent is small. -/
theorem mul_eq_carry {m n : Nat} {e k : Int} (hfits : 52 ≤ (m * n).log2 ∨ e + k ≤ -1074) :
    ∃ r t, IsRounded (m * 2 ^ e * (n * 2 ^ k)) r t ∧
      ∀ s, roundWithAccuracy Format.binary64 s (m * n) (e + k) .exact = carry s r t := by
  obtain ⟨r, t, hrounded, hround⟩ := roundWithAccuracy_exact hfits
  have hvalue : ((m * n : Nat) * 2 ^ (e + k) : ℚ) = m * 2 ^ e * (n * 2 ^ k) := by
    rw [zpow_add₀ two_ne_zero]
    push_cast
    ring
  rw [hvalue] at hrounded
  exact ⟨r, t, hrounded, hround⟩

theorem log2_shiftLeft {m : Nat} (hm : m ≠ 0) (k : Nat) : (m <<< k).log2 = m.log2 + k := by
  induction k with
  | zero => rfl
  | succ k ih =>
    have hne : m <<< k ≠ 0 := by
      rw [Nat.shiftLeft_eq]
      exact Nat.mul_ne_zero hm (Nat.two_pow_pos k).ne'
    rw [Nat.shiftLeft_succ, Nat.log2_two_mul hne, ih, Nat.add_assoc]

/-- What rounding makes of any whole number of units: first the mantissa is filled up. -/
theorem round_eq_carry {m : Nat} (hm : m ≠ 0) (e : Int) :
    ∃ r t, IsRounded (m * 2 ^ e) r t ∧
      ∀ s, UnpackedFloat.round Format.binary64 s m e = carry s r t := by
  have htarget := targetExponent_eq m e
  obtain ⟨k, hk⟩ : ∃ k : Nat, k =
      (e - Format.binary64.targetExponent (totalExponent m e)).toNat := ⟨_, rfl⟩
  have hlog : (m <<< k).log2 = m.log2 + k := log2_shiftLeft hm k
  have hfits : 52 ≤ (m <<< k).log2 ∨ e - k ≤ -1074 := by omega
  obtain ⟨r, t, hrounded, hround⟩ := roundWithAccuracy_exact hfits
  have hvalue : ((m <<< k : Nat) * 2 ^ (e - k) : ℚ) = m * 2 ^ e := by
    rw [Nat.shiftLeft_eq, zpow_sub₀ two_ne_zero, zpow_natCast]
    push_cast
    field_simp
  rw [hvalue] at hrounded
  refine ⟨r, t, hrounded, fun s => ?_⟩
  rw [← hround s, hk]
  rfl

theorem le_log2_div {m n k : Nat} (hm : m ≠ 0) (hn : 0 < n) (h : n.log2 + 1 + k ≤ m.log2) :
    k ≤ (m / n).log2 := by
  have hbound : 2 ^ k ≤ m / n := by
    rw [Nat.le_div_iff_mul_le hn]
    calc 2 ^ k * n ≤ 2 ^ k * 2 ^ (n.log2 + 1) := Nat.mul_le_mul_left _ Nat.lt_log2_self.le
      _ = 2 ^ (n.log2 + 1 + k) := by rw [← Nat.pow_add, Nat.add_comm]
      _ ≤ 2 ^ m.log2 := Nat.pow_le_pow_right Nat.two_pos h
      _ ≤ m := Nat.log2_self_le hm
  have hne : m / n ≠ 0 := (Nat.lt_of_lt_of_le (Nat.two_pow_pos k) hbound).ne'
  exact (Nat.le_log2 hne).2 hbound

/-- What rounding makes of a quotient of two numbers. -/
theorem divCore_eq_carry {m n : Nat} (hm : 0 < m) (e : Int) (hn : 0 < n) (k : Int) :
    ∃ r t, IsRounded (m * 2 ^ e / (n * 2 ^ k)) r t ∧
      ∀ s, roundWithAccuracy Format.binary64 s (divCore Format.binary64 m e n k).1
        (divCore Format.binary64 m e n k).2.1 (divCore Format.binary64 m e n k).2.2 =
          carry s r t := by
  unfold divCore
  dsimp only
  have htarget : Format.binary64.targetExponent (totalExponent m e - totalExponent n k) =
      max ((m.log2 : Int) + e - n.log2 - k - 53) (-1074) := by
    simp only [Format.targetExponent, totalExponent, Format.mantissaBits, Format.minExponent]
    omega
  rw [htarget]
  obtain ⟨t, ht⟩ : ∃ t : Int, t = min (e - k) (max ((m.log2 : Int) + e - n.log2 - k - 53) (-1074)) :=
    ⟨_, rfl⟩
  obtain ⟨d, hd⟩ : ∃ d : Nat, e - k = t + d := ⟨(e - k - t).toNat, by omega⟩
  have hshift : (e - k - t).toNat = d := by omega
  rw [← ht, hshift]
  have hfits : 52 ≤ (m <<< d / n).log2 ∨ t ≤ -1074 := by
    by_cases hleast : t ≤ -1074
    · exact .inr hleast
    · have hne : m <<< d ≠ 0 := by
        rw [Nat.shiftLeft_eq]
        exact (Nat.mul_pos hm (Nat.two_pow_pos d)).ne'
      have hlog := log2_shiftLeft hm.ne' d
      exact .inl (le_log2_div hne hn (by omega))
  obtain ⟨r, t', hrounded, hround⟩ := roundWithAccuracy_eq_carry hn (tells_quotient _ hn) hfits
  have hvalue : ((m <<< d : Nat) / n * 2 ^ t : ℚ) = m * 2 ^ e / (n * 2 ^ k) := by
    have he : e = t + d + k := by omega
    rw [he, zpow_add₀ two_ne_zero, zpow_add₀ two_ne_zero, zpow_natCast, Nat.shiftLeft_eq]
    push_cast
    field_simp
  rw [hvalue] at hrounded
  exact ⟨r, t', hrounded, hround⟩

/-- The mantissa of a number from the least full one on is full. -/
theorem IsRounded.two_pow_le {x : ℚ} {m : Nat} {e : Int} (h : IsRounded x m e)
    (hx : 2 ^ 52 * 2 ^ e ≤ x) : 2 ^ 52 ≤ m := by
  have hunit : (0 : ℚ) < 2 ^ e := by positivity
  have hm : (2 ^ 52 : ℚ) ≤ m + 1 / 2 := le_of_mul_le_mul_right (hx.trans h.le) hunit
  have hm' : ((2 ^ 52 : Nat) : ℚ) < (m + 1 : Nat) := by
    push_cast
    linarith
  exact Nat.lt_succ_iff.1 (Nat.cast_lt.1 hm')

/-- Rounding does not cross a double. -/
theorem IsRounded.le_of_le {x : ℚ} {m n : Nat} {e k : Int} (h : IsRounded x m e)
    (hn : n < 2 ^ 53) (hk : -1074 ≤ k) (hx : x ≤ n * 2 ^ k) : (m * 2 ^ e : ℚ) ≤ n * 2 ^ k := by
  have hunit : (0 : ℚ) < 2 ^ e := by positivity
  rcases Int.lt_or_le k e with hlt | hle
  · -- then the exact number is too large for a mantissa of 53 bits at this exponent
    exfalso
    have hfull : (2 ^ 52 * 2 ^ e : ℚ) ≤ x := h.full.resolve_left (by omega)
    have hscale := two_mul_zpow_le hlt
    have hnRat : (n : ℚ) < 2 ^ 53 := by exact_mod_cast hn
    have hhigh : (n * 2 ^ k : ℚ) < 2 ^ 53 * 2 ^ k := mul_lt_mul_of_pos_right hnRat (by positivity)
    linarith
  · obtain ⟨d, rfl⟩ := Int.le.dest hle
    have hscale : (n * 2 ^ (e + d) : ℚ) = (n * 2 ^ d : Nat) * 2 ^ e := by
      rw [zpow_add₀ two_ne_zero, zpow_natCast]
      push_cast
      ring
    rw [hscale] at hx ⊢
    have hnear : (m : ℚ) - 1 / 2 ≤ (n * 2 ^ d : Nat) := le_of_mul_le_mul_right (h.ge.trans hx) hunit
    have hlt : (m : ℚ) < (n * 2 ^ d + 1 : Nat) := by
      push_cast at hnear ⊢
      linarith
    exact mul_le_mul_of_nonneg_right (Nat.cast_le.2 (Nat.lt_succ_iff.1 (Nat.cast_lt.1 hlt))) hunit.le

/-- Rounding does not cross a double from above either. -/
theorem IsRounded.ge_of_ge {x : ℚ} {m n : Nat} {e k : Int} (h : IsRounded x m e)
    (hn : n < 2 ^ 53) (hk : -1074 ≤ k) (hx : (n * 2 ^ k : ℚ) ≤ x) :
    (n * 2 ^ k : ℚ) ≤ m * 2 ^ e := by
  have hunit : (0 : ℚ) < 2 ^ e := by positivity
  rcases Int.lt_or_le k e with hlt | hle
  · -- then the mantissa is full, and so is larger than any at the smaller exponent
    have hfull : (2 ^ 52 * 2 ^ e : ℚ) ≤ x := h.full.resolve_left (by omega)
    have hmantissa : (2 ^ 52 : ℚ) ≤ m := by exact_mod_cast h.two_pow_le hfull
    have hnRat : (n : ℚ) ≤ 2 ^ 53 := by exact_mod_cast hn.le
    calc (n * 2 ^ k : ℚ) ≤ 2 ^ 53 * 2 ^ k := mul_le_mul_of_nonneg_right hnRat (by positivity)
      _ = 2 ^ 52 * (2 * 2 ^ k) := by ring
      _ ≤ 2 ^ 52 * 2 ^ e := mul_le_mul_of_nonneg_left (two_mul_zpow_le hlt) (by positivity)
      _ ≤ m * 2 ^ e := mul_le_mul_of_nonneg_right hmantissa hunit.le
  · obtain ⟨d, rfl⟩ := Int.le.dest hle
    have hscale : (n * 2 ^ (e + d) : ℚ) = (n * 2 ^ d : Nat) * 2 ^ e := by
      rw [zpow_add₀ two_ne_zero, zpow_natCast]
      push_cast
      ring
    rw [hscale] at hx ⊢
    have hnear : ((n * 2 ^ d : Nat) : ℚ) ≤ m + 1 / 2 := le_of_mul_le_mul_right (hx.trans h.le) hunit
    have hlt : ((n * 2 ^ d : Nat) : ℚ) < (m + 1 : Nat) := by
      push_cast at hnear ⊢
      linarith
    exact mul_le_mul_of_nonneg_right (Nat.cast_le.2 (Nat.lt_succ_iff.1 (Nat.cast_lt.1 hlt))) hunit.le

/-- What is more than half of the least positive double is not rounded to zero. -/
theorem IsRounded.pos_of_lt {x : ℚ} {m : Nat} {e : Int} (h : IsRounded x m e)
    (hx : 2 ^ (-1075 : Int) < x) : 0 < m := by
  rcases Nat.eq_zero_or_pos m with rfl | hm
  · exfalso
    have hle := h.le
    rw [Nat.cast_zero, zero_add] at hle
    rcases h.full with rfl | hfull
    · have htwice : (2 ^ (1 + -1075 : Int) : ℚ) = 2 * 2 ^ (-1075 : Int) :=
        zpow_one_add₀ two_ne_zero _
      rw [show (1 + -1075 : Int) = -1074 from rfl] at htwice
      linarith
    · have hunit : (0 : ℚ) < 2 ^ e := by positivity
      linarith
  · exact hm

/-- A rounded mantissa that has not come up to the next power of two is canonical. -/
theorem IsRounded.isCanonical_of_lt {x : ℚ} {m : Nat} {e : Int} (h : IsRounded x m e)
    (hlt : m < 2 ^ 53) : IsCanonical m e :=
  ⟨hlt, h.least, h.full.symm.imp_left h.two_pow_le⟩

/-- The parts of a mantissa that has come up to the next power of two. -/
theorem isCanonical_two_pow {e : Int} (h : -1074 ≤ e) : IsCanonical (2 ^ 52) (e + 1) :=
  ⟨by decide, by omega, .inl (Nat.le_refl _)⟩

/-- The carry keeps the number and makes its parts canonical. -/
theorem IsRounded.carry_cases {x : ℚ} {m : Nat} {e : Int} (h : IsRounded x m e) (s : Sign) :
    (m = 0 ∧ carry s m e = .zero s) ∨
      ∃ (n : Nat) (k : Int) (hn : 0 < n), IsCanonical n k ∧ (n * 2 ^ k : ℚ) = m * 2 ^ e ∧
        carry s m e = .finite s n k hn := by
  unfold carry
  split
  next hzero => exact .inl ⟨hzero, rfl⟩
  next hzero =>
    split
    next hlt => exact .inr ⟨m, e, Nat.pos_of_ne_zero hzero, h.isCanonical_of_lt hlt, rfl, rfl⟩
    next hge =>
      have hm : m = 2 ^ 53 := Nat.le_antisymm h.le_two_pow (Nat.le_of_not_lt hge)
      refine .inr ⟨2 ^ 52, e + 1, Nat.two_pow_pos 52, isCanonical_two_pow h.least, ?_, rfl⟩
      rw [hm, zpow_add_one₀ two_ne_zero]
      push_cast
      ring

end ZeroCurve.Double

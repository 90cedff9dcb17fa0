import Mathlib
import ZeroCurve.Scalar

/-!
# Rational numbers as scalars

Exact arithmetic: no number is infinite or undefined, and nothing is rounded except where a whole
part is taken. The same goes for the numbers of any ordered field that have whole parts, such as the
real numbers.
-/

namespace ZeroCurve.Exact

/-- The whole part, cut off toward zero. -/
def trunc (q : ℚ) : Int := if q < 0 then ⌈q⌉ else ⌊q⌋

instance : Scalar ℚ where
  decLt := inferInstance
  ofInt n := n
  ofDecimal d := d.digits / 10 ^ d.places
  isZero q := q = 0
  isFinite _ := true
  trunc := trunc
  floorMod a b := a - b * ⌊a / b⌋
  zero_lt_one := by norm_num

instance (priority := low) orderedField {K : Type} [Field K] [LinearOrder K] [IsStrictOrderedRing K]
    [FloorRing K] : Scalar K where
  decLt := inferInstance
  ofInt n := n
  ofDecimal d := d.digits / 10 ^ d.places
  isZero q := q = 0
  isFinite _ := true
  trunc q := if q < 0 then ⌈q⌉ else ⌊q⌋
  floorMod a b := a - b * ⌊a / b⌋
  zero_lt_one := by norm_num

/-- The two instances agree on the rational numbers. -/
example : (orderedField : Scalar ℚ) = inferInstanceAs (Scalar ℚ) := rfl

theorem divide_eq {a b : ℚ} (hb : b ≠ 0) : Scalar.divide a b = .ok (a / b) := by
  have hzero : Scalar.isZero b = false := decide_eq_false hb
  rw [Scalar.divide, hzero]
  rfl

theorem ofInt_zero : (Scalar.ofInt 0 : ℚ) = 0 := Int.cast_zero

theorem magnitude_eq_abs (q : ℚ) : Scalar.magnitude q = |q| := by
  rw [Scalar.magnitude, ofInt_zero]
  split
  next hneg => exact (abs_of_neg hneg).symm
  next hnonneg => exact (abs_of_nonneg (not_lt.1 hnonneg)).symm

theorem trunc_of_nonneg {q : ℚ} (h : 0 ≤ q) : trunc q = ⌊q⌋ := by
  rw [trunc, if_neg (not_lt.2 h)]

theorem trunc_of_neg {q : ℚ} (h : q < 0) : trunc q = ⌈q⌉ := by
  rw [trunc, if_pos h]

/-- Whole steps between numbers that are not negative are steps of their whole parts. -/
theorem trunc_add_intCast {q : ℚ} {n : Int} (h : 0 ≤ q) (hn : 0 ≤ q + n) :
    trunc (q + n) = trunc q + n := by
  rw [trunc_of_nonneg h, trunc_of_nonneg hn, Int.floor_add_intCast]

theorem trunc_intCast (n : Int) : trunc n = n := by
  rw [trunc, Int.ceil_intCast, Int.floor_intCast, ite_self]

theorem trunc_mono : Monotone trunc := by
  intro a b h
  rcases lt_or_ge b 0 with hb | hb
  · rw [trunc_of_neg hb, trunc_of_neg (h.trans_lt hb)]
    exact Int.ceil_mono h
  rw [trunc_of_nonneg hb]
  rcases lt_or_ge a 0 with ha | ha
  · rw [trunc_of_neg ha]
    exact (Int.ceil_le.2 (by exact_mod_cast ha.le)).trans (Int.floor_nonneg.2 hb)
  · rw [trunc_of_nonneg ha]
    exact Int.floor_mono h

/-- The nearer of two numbers on one side of a whole number is not cut off to one further away,
though the two sides are rounded in different directions. -/
theorem abs_trunc_sub_le {a b : ℚ} {n : Int} (h : a ∈ Set.uIcc (n : ℚ) b) :
    |trunc a - n| ≤ |trunc b - n| := by
  have hbetween : trunc a ∈ Set.uIcc (trunc n) (trunc b) := trunc_mono.mapsTo_uIcc h
  rw [trunc_intCast] at hbetween
  exact Set.abs_sub_left_of_mem_uIcc hbetween

/-- The numbers cut off to a whole number that is not negative: zero also takes those less than one
below it. -/
theorem trunc_eq_iff {q : ℚ} {n : Int} (hn : 0 ≤ n) :
    trunc q = n ↔ (n ≤ q ∧ q < n + 1) ∨ n = 0 ∧ -1 < q ∧ q < 0 := by
  have hn' : (0 : ℚ) ≤ n := by exact_mod_cast hn
  rcases lt_or_ge q 0 with hq | hq
  · -- below zero the whole part is the ceiling, and zero is the only one that is not negative
    rw [trunc_of_neg hq]
    constructor
    · intro h
      have hle : n ≤ 0 := h ▸ Int.ceil_le.2 (by exact_mod_cast hq.le)
      have hzero : n = 0 := le_antisymm hle hn
      refine .inr ⟨hzero, ?_, hq⟩
      rw [hzero, Int.ceil_eq_iff] at h
      simpa using h.1
    · rintro (⟨hle, -⟩ | ⟨rfl, hlow, -⟩)
      · exact absurd (hn'.trans hle) (not_le.2 hq)
      · rw [Int.ceil_eq_iff]
        exact ⟨by simpa using hlow, by simpa using hq.le⟩
  · rw [trunc_of_nonneg hq, Int.floor_eq_iff]
    constructor
    · exact .inl
    · rintro (h | ⟨-, -, hneg⟩)
      · exact h
      · exact absurd hneg (not_lt.2 hq)

/-- What is cut off to a whole number from zero on and below another is above minus one and below the
other, whatever is on the way of the cut. -/
theorem trunc_mem_iff {q : ℚ} {n : Int} (hn : 0 < n) :
    (0 ≤ trunc q ∧ trunc q < n) ↔ -1 < q ∧ q < n := by
  have hn' : (0 : ℚ) < n := by exact_mod_cast hn
  rcases lt_or_ge q 0 with hq | hq
  · have hceil : ⌈q⌉ < n := lt_of_le_of_lt (Int.ceil_le.2 (by exact_mod_cast hq.le)) hn
    rw [trunc_of_neg hq, and_iff_left hceil, and_iff_left (hq.trans hn'), Int.le_ceil_iff]
    norm_num
  · rw [trunc_of_nonneg hq, Int.floor_lt]
    exact and_congr_left' (iff_of_true (Int.floor_nonneg.2 hq) (by linarith))

end ZeroCurve.Exact

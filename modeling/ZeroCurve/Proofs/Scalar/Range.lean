import ZeroCurve.Proofs.Scalar.Nearest

/-!
# The range of doubles

A sum, difference, product or quotient of finite doubles is finite again exactly when the exact
result is nearer to zero than `overflowBound`, the middle between the largest double and the next
power of two. The middle itself counts as too large, since the largest mantissa is odd.
-/

namespace ZeroCurve

/-- The number that the parts of a double stand for. -/
def Dyadic.value (d : Dyadic) : ℚ :=
  (if d.negative then -(d.mantissa : ℚ) else d.mantissa) * 2 ^ d.exponent

namespace Double

open Float.Model
open Float.Model.UnpackedFloat

/-- The number that a finite double stands for; zero for the others. -/
def value (v : Float) : ℚ := ((Dyadic.ofFloat? v).map Dyadic.value).getD 0

/-- The least number that is rounded to infinity. -/
def overflowBound : ℚ := 2 ^ 1024 - 2 ^ 970

theorem overflowBound_eq : overflowBound = (2 ^ 53 - 1 / 2) * 2 ^ (971 : Int) := by
  have hscale : (2 : ℚ) ^ (971 : Int) = 2 * 2 ^ 970 := by
    rw [← pow_succ']
    rfl
  have htop : (2 : ℚ) ^ 1024 = 2 ^ 54 * 2 ^ 970 := by
    rw [← pow_add]
  rw [overflowBound, hscale, htop]
  generalize (2 : ℚ) ^ 970 = unit
  ring

theorem two_pow_lt_overflowBound : (2 : ℚ) ^ 53 < overflowBound := by
  have hunit : (2 : ℚ) * 2 ^ (0 : Int) ≤ 2 ^ (971 : Int) := two_mul_zpow_le (by decide)
  rw [zpow_zero, mul_one] at hunit
  rw [overflowBound_eq]
  calc (2 : ℚ) ^ 53 < (2 ^ 53 - 1 / 2) * 2 := by norm_num
    _ ≤ (2 ^ 53 - 1 / 2) * 2 ^ (971 : Int) := mul_le_mul_of_nonneg_left hunit (by norm_num)

/-- The largest double. -/
def largest : ℚ := (2 ^ 53 - 1) * 2 ^ (971 : Int)

theorem largest_lt : largest < overflowBound := by
  have hunit : (0 : ℚ) < 2 ^ (971 : Int) := by positivity
  rw [largest, overflowBound_eq]
  exact mul_lt_mul_of_pos_right (by norm_num) hunit

theorem IsCanonical.le_largest {m : Nat} {e : Int} (h : IsCanonical m e) (he : e ≤ 971) :
    (m * 2 ^ e : ℚ) ≤ largest := by
  have hm : (m : ℚ) ≤ 2 ^ 53 - 1 := by
    have hle : ((m + 1 : Nat) : ℚ) ≤ (2 ^ 53 : Nat) := Nat.cast_le.2 h.lt
    push_cast at hle
    linarith
  exact mul_le_mul hm (zpow_le_zpow_right₀ one_le_two he) (by positivity) (by norm_num)

/-- What is rounded to a larger exponent than doubles have was not below the bound. -/
theorem IsRounded.overflowBound_le {x : ℚ} {m : Nat} {e : Int} (h : IsRounded x m e)
    (hlarge : 972 ≤ e ∨ e = 971 ∧ m = 2 ^ 53) : overflowBound ≤ x := by
  rw [overflowBound_eq]
  rcases hlarge with he | ⟨rfl, rfl⟩
  · have hfull : (2 ^ 52 * 2 ^ e : ℚ) ≤ x := h.full.resolve_left (by omega)
    have hscale : (2 : ℚ) * 2 ^ (971 : Int) ≤ 2 ^ e := two_mul_zpow_le (by omega)
    have hunit : (0 : ℚ) < 2 ^ (971 : Int) := by positivity
    generalize (2 : ℚ) ^ (971 : Int) = unit at hscale hunit ⊢
    linarith
  · have hge := h.ge
    rw [Nat.cast_pow, Nat.cast_ofNat] at hge
    exact hge

/-- What is rounded to an exponent that doubles have was below the bound. -/
theorem IsRounded.lt_overflowBound {x : ℚ} {m : Nat} {e : Int} (h : IsRounded x m e)
    (hsmall : e ≤ 970 ∨ e = 971 ∧ m < 2 ^ 53) : x < overflowBound := by
  rw [overflowBound_eq]
  have hunit : (0 : ℚ) < 2 ^ (971 : Int) := by positivity
  rcases hsmall with he | ⟨rfl, hm⟩
  · have hscale : (2 : ℚ) * 2 ^ e ≤ 2 ^ (971 : Int) := two_mul_zpow_le (by omega)
    have hlt := h.lt
    generalize (2 : ℚ) ^ (971 : Int) = unit at hscale hunit ⊢
    linarith
  · have hmantissa : (m : ℚ) + 1 / 2 ≤ 2 ^ 53 - 1 / 2 := by
      have hle : ((m + 1 : Nat) : ℚ) ≤ (2 ^ 53 : Nat) := Nat.cast_le.2 hm
      push_cast at hle
      linarith
    refine lt_of_le_of_ne (h.le.trans (mul_le_mul_of_nonneg_right hmantissa hunit.le)) ?_
    -- the bound itself would have been rounded to an even mantissa, and the largest one is odd
    intro hx
    have hupper : (2 ^ 53 - 1 / 2 : ℚ) ≤ m + 1 / 2 := by
      have hle := h.le
      rw [hx] at hle
      exact le_of_mul_le_mul_right hle hunit
    have hlargest : (m : ℚ) + 1 / 2 = 2 ^ 53 - 1 / 2 := le_antisymm hmantissa hupper
    have heven : Even m := h.even (.inl (by rw [hx, hlargest]))
    have hvalue : m = 2 ^ 53 - 1 := by
      have hcast : ((m + 1 : Nat) : ℚ) = (2 ^ 53 : Nat) := by
        push_cast
        linarith
      have := Nat.cast_injective hcast
      omega
    rw [hvalue] at heven
    exact absurd heven (by decide)

theorem isFinite_pack_zero (s : Sign) :
    (Float.Model.pack (.zero s)).unpack.isFinite = true := by
  cases s <;> rfl

/-- A canonical pair is packed to a finite double exactly when its exponent is not too large. -/
theorem isFinite_pack_iff {s : Sign} {m : Nat} {e : Int} {hm : 0 < m} (h : IsCanonical m e) :
    (Float.Model.pack (.finite s m e hm)).unpack.isFinite = true ↔ e ≤ 971 := by
  rw [unpack_pack_finite h]
  split
  next he => exact iff_of_true rfl he
  next he => exact iff_of_false Bool.false_ne_true he

/-- What is rounded and packed is finite exactly when it was below the bound. -/
theorem IsRounded.isFinite_pack_iff {x : ℚ} {m : Nat} {e : Int} (h : IsRounded x m e) (s : Sign) :
    (Float.Model.pack (carry s m e)).unpack.isFinite = true ↔ x < overflowBound := by
  unfold carry
  split
  next hzero =>
    have hcanonical := h.isCanonical_of_lt (hzero ▸ Nat.two_pow_pos 53)
    have hleast : e = -1074 := hcanonical.full.resolve_left (by omega)
    exact iff_of_true (isFinite_pack_zero s) (h.lt_overflowBound (.inl (by omega)))
  split
  next hlt =>
    rw [Double.isFinite_pack_iff (h.isCanonical_of_lt hlt)]
    refine ⟨fun he => h.lt_overflowBound (by omega), fun hx => ?_⟩
    by_contra he
    exact absurd hx (not_lt.2 (h.overflowBound_le (.inl (by omega))))
  next hge =>
    have hm : m = 2 ^ 53 := Nat.le_antisymm h.le_two_pow (Nat.le_of_not_lt hge)
    rw [Double.isFinite_pack_iff (isCanonical_two_pow h.least)]
    refine ⟨fun he => h.lt_overflowBound (.inl (by omega)), fun hx => ?_⟩
    by_contra he
    exact absurd hx (not_lt.2 (h.overflowBound_le (by omega)))

theorem value_eq (v : Float) : value v = number v.toModel.unpack := by
  rw [value, ofFloat?_eq]
  cases v.toModel.unpack with
  | notANumber | infinity s => rfl
  | zero s =>
    show (if _ then -((0 : Nat) : ℚ) else ((0 : Nat) : ℚ)) * 2 ^ (-1074 : Int) = 0
    rw [Nat.cast_zero, neg_zero, ite_self, zero_mul]
  | finite s m e hm =>
    rw [number_finite]
    cases s with
    | negative => exact (neg_mul _ _).trans (neg_one_mul _).symm
    | positive => exact (one_mul _).symm

theorem value_of_parts {v : Float} {m : Nat} {e : Int}
    (h : Dyadic.ofFloat? v = some ⟨false, m, e⟩) : value v = m * 2 ^ e := by
  rw [value, h]
  rfl

theorem isFit_unpack {v : Float} (h : v.isFinite = true) : IsFit v.toModel.unpack := by
  have hmodel : v.toModel.unpack.isFinite = true := h
  cases hu : v.toModel.unpack with
  | notANumber | infinity s =>
    rw [hu] at hmodel
    cases hmodel
  | zero s => trivial
  | finite s m e hm => exact isCanonical_unpack hu

theorem IsFit.abs_number_le {u : UnpackedFloat} (h : IsFit u) : |number u| ≤ largest := by
  cases u with
  | notANumber | infinity s => exact h.elim
  | zero s =>
    have hlargest : 0 ≤ largest := mul_nonneg (by norm_num) (by positivity)
    exact abs_zero.trans_le hlargest
  | finite s m e hm =>
    rw [abs_number_finite]
    exact h.1.le_largest h.2

/-- A number that is not finite is not packed to a finite double. -/
theorem isFinite_pack_eq_false {u : UnpackedFloat} (h : u.isFinite = false) :
    (Float.Model.pack u).unpack.isFinite = false := by
  cases u with
  | notANumber => rfl
  | infinity s =>
    rw [unpack_pack_infinity]
    rfl
  | zero s | finite s m e hm => cases h

/-- A sum is not finite if its second number is not. -/
theorem unpacked_isFinite_add_eq_false (f : Format) (u : UnpackedFloat) {w : UnpackedFloat}
    (h : w.isFinite = false) : (UnpackedFloat.add f u w).isFinite = false := by
  cases w with
  | zero s | finite s m e hm => cases h
  | notANumber => cases u <;> rfl
  | infinity s =>
    cases u with
    | infinity s' => cases s <;> cases s' <;> rfl
    | _ => rfl

theorem isFinite_neg (u : UnpackedFloat) : u.neg.isFinite = u.isFinite := by
  cases u <;> rfl

theorem unpacked_isFinite_sub_eq_false (f : Format) (u : UnpackedFloat) {w : UnpackedFloat}
    (h : w.isFinite = false) : (UnpackedFloat.sub f u w).isFinite = false := by
  rw [unpacked_sub_eq_add_neg]
  exact unpacked_isFinite_add_eq_false f u ((isFinite_neg w).trans h)

/-- Whether a double is an exact number, rounded. -/
def IsNearest (x : ℚ) (v : Float) : Prop :=
  ∃ u, Rounds x u ∧ v.toModel = Float.Model.pack u

/-- An exact number is rounded to a finite double exactly when it is below the bound. -/
theorem IsNearest.isFinite_iff {x : ℚ} {v : Float} (h : IsNearest x v) :
    v.isFinite = true ↔ |x| < overflowBound := by
  obtain ⟨u, ⟨s, m, e, hrounded, -, rfl⟩, hv⟩ := h
  show v.toModel.unpack.isFinite = true ↔ _
  rw [hv]
  exact hrounded.isFinite_pack_iff s

theorem isNearest_toFloat (n : UInt64) : IsNearest n.toNat n.toFloat :=
  ⟨_, rounds_ofNat n.toNat, rfl⟩

section

variable {v w : Float} (hv : v.isFinite = true) (hw : w.isFinite = true)
include hv

theorem abs_value_le : |value v| ≤ largest := by
  rw [value_eq]
  exact (isFit_unpack hv).abs_number_le

/-- Numbers of finite doubles are below the bound. -/
theorem abs_value_lt : |value v| < overflowBound := (abs_value_le hv).trans_lt largest_lt

include hw

theorem isNearest_add : IsNearest (value v + value w) (v + w) := by
  rw [value_eq, value_eq]
  exact ⟨_, rounds_add (isFit_unpack hv) (isFit_unpack hw), rfl⟩

theorem isNearest_sub : IsNearest (value v - value w) (v - w) := by
  rw [value_eq, value_eq]
  exact ⟨_, rounds_sub (isFit_unpack hv) (isFit_unpack hw), rfl⟩

theorem isNearest_mul : IsNearest (value v * value w) (v * w) := by
  rw [value_eq, value_eq]
  exact ⟨_, rounds_mul (isFit_unpack hv) (isFit_unpack hw), rfl⟩

theorem isNearest_div (hne : value w ≠ 0) : IsNearest (value v / value w) (v / w) := by
  rw [value_eq] at hne
  rw [value_eq, value_eq]
  exact ⟨_, rounds_div (isFit_unpack hv) (isFit_unpack hw) hne, rfl⟩

omit hw

theorem isFinite_add_iff :
    (v + w).isFinite = true ↔ w.isFinite = true ∧ |value v + value w| < overflowBound := by
  cases hw : w.isFinite with
  | false =>
    have hsum : (v + w).isFinite = false :=
      isFinite_pack_eq_false (unpacked_isFinite_add_eq_false _ _ hw)
    rw [hsum]
    exact iff_of_false Bool.false_ne_true fun h => Bool.false_ne_true h.1
  | true =>
    rw [eq_self, true_and]
    exact (isNearest_add hv hw).isFinite_iff

theorem isFinite_sub_iff :
    (v - w).isFinite = true ↔ w.isFinite = true ∧ |value v - value w| < overflowBound := by
  cases hw : w.isFinite with
  | false =>
    have hdifference : (v - w).isFinite = false :=
      isFinite_pack_eq_false (unpacked_isFinite_sub_eq_false _ _ hw)
    rw [hdifference]
    exact iff_of_false Bool.false_ne_true fun h => Bool.false_ne_true h.1
  | true =>
    rw [eq_self, true_and]
    exact (isNearest_sub hv hw).isFinite_iff

include hw

theorem isFinite_mul_iff : (v * w).isFinite = true ↔ |value v * value w| < overflowBound :=
  (isNearest_mul hv hw).isFinite_iff

theorem isFinite_div_iff (hne : value w ≠ 0) :
    (v / w).isFinite = true ↔ |value v / value w| < overflowBound :=
  (isNearest_div hv hw hne).isFinite_iff

end

end Double

end ZeroCurve

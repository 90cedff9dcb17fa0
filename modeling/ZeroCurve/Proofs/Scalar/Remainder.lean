import ZeroCurve.Proofs.Scalar.Exact
import ZeroCurve.Proofs.Scalar.Order

/-!
# Remainders of doubles

The remainder of a division of doubles, with the sign of the dividend, is exact: it is a whole number
of the divisor's units, smaller than the divisor's mantissa, so nothing is left to be rounded.
-/

namespace ZeroCurve

namespace Exact

/-- The remainder of the division whose quotient is cut off toward zero. -/
def truncMod (a b : ℚ) : ℚ := a - b * trunc (a / b)

theorem trunc_neg (q : ℚ) : trunc (-q) = -trunc q := by
  rcases lt_trichotomy q 0 with h | rfl | h
  · rw [trunc_of_nonneg (neg_nonneg.2 h.le), trunc_of_neg h, Int.floor_neg]
  · rfl
  · rw [trunc_of_neg (neg_neg_of_pos h), trunc_of_nonneg h.le, Int.ceil_neg]

theorem truncMod_neg_left (a b : ℚ) : truncMod (-a) b = -truncMod a b := by
  rw [truncMod, truncMod, neg_div, trunc_neg, Int.cast_neg]
  ring

theorem truncMod_abs_right (a b : ℚ) : truncMod a |b| = truncMod a b := by
  rcases abs_choice b with h | h
  · rw [h]
  · rw [h, truncMod, truncMod, div_neg, trunc_neg, Int.cast_neg, neg_mul_neg]

theorem truncMod_of_abs_lt {a b : ℚ} (h : |a| < |b|) : truncMod a b = a := by
  have hb : 0 < |b| := (abs_nonneg a).trans_lt h
  have hsize : |a / b| < 1 := by rwa [abs_div, div_lt_one hb]
  obtain ⟨hlow, hhigh⟩ := abs_lt.1 hsize
  have htrunc : trunc (a / b) = 0 := by
    rw [trunc_eq_iff le_rfl, Int.cast_zero, zero_add]
    rcases lt_or_ge (a / b) 0 with hneg | hnonneg
    · exact .inr ⟨rfl, hlow, hneg⟩
    · exact .inl ⟨hnonneg, hhigh⟩
  rw [truncMod, htrunc, Int.cast_zero, mul_zero, sub_zero]

theorem abs_sub_trunc_lt (q : ℚ) : |q - trunc q| < 1 := by
  rcases lt_or_ge q 0 with h | h
  · rw [trunc_of_neg h, abs_lt]
    have hlow := Int.le_ceil q
    have hhigh := Int.ceil_lt_add_one q
    constructor <;> linarith
  · rw [trunc_of_nonneg h, abs_lt]
    have hlow := Int.floor_le q
    have hhigh := Int.lt_floor_add_one q
    constructor <;> linarith

theorem abs_truncMod_lt (a : ℚ) {b : ℚ} (hb : b ≠ 0) : |truncMod a b| < |b| := by
  have hsplit : truncMod a b = b * (a / b - trunc (a / b)) := by
    rw [truncMod, mul_sub, mul_div_cancel₀ _ hb]
  rw [hsplit, abs_mul]
  exact mul_lt_of_lt_one_right (abs_pos.2 hb) (abs_sub_trunc_lt _)

theorem truncMod_nonneg {a b : ℚ} (ha : 0 ≤ a) (hb : 0 < b) : 0 ≤ truncMod a b := by
  have hquotient : 0 ≤ a / b := div_nonneg ha hb.le
  rw [truncMod, trunc_of_nonneg hquotient, sub_nonneg, ← le_div_iff₀' hb]
  exact Int.floor_le _

/-- The remainder of whole numbers of one unit. -/
theorem truncMod_natCast_mul (n d : Nat) {unit : ℚ} (h : unit ≠ 0) :
    truncMod (n * unit) (d * unit) = (n % d : Nat) * unit := by
  have hquotient : (0 : ℚ) ≤ n / d := by positivity
  have hfloor : ⌊(n / d : ℚ)⌋ = (n / d : Nat) := by
    rw [Rat.floor_natCast_div_natCast]
    norm_cast
  have hsplit : (n : ℚ) = d * (n / d : Nat) + (n % d : Nat) := by
    exact_mod_cast (Nat.div_add_mod n d).symm
  rw [truncMod, mul_div_mul_right _ _ h, trunc_of_nonneg hquotient, hfloor, Int.cast_natCast]
  linear_combination unit * hsplit

end Exact

namespace Double

theorem toNat_shiftLeft {a : UInt64} {k : Nat} (ha : a.toNat < 2 ^ 53) (hk : k ≤ 10) :
    (a <<< k.toUInt64).toNat = a.toNat * 2 ^ k := by
  have hpow : 2 ^ k ≤ 2 ^ 10 := Nat.pow_le_pow_right Nat.two_pos hk
  have hlt : a.toNat * 2 ^ k < 2 ^ 64 :=
    (Nat.mul_lt_mul_of_lt_of_le ha hpow (by decide)).trans (by decide)
  have hdigits : k.toUInt64.toNat % 64 = k := by
    rw [UInt64.toNat_ofNat_of_lt' (Nat.lt_of_le_of_lt hk (by decide)), Nat.mod_eq_of_lt (by omega)]
  rw [UInt64.toNat_shiftLeft, hdigits, Nat.shiftLeft_eq, Nat.mod_eq_of_lt hlt]

/-- Appending zero bits ten at a time loses nothing on the way. -/
theorem toNat_appendTens {m : UInt64} (hm : m.toNat < 2 ^ 53) (n : Nat) {rest : UInt64}
    (hrest : rest.toNat < m.toNat) :
    (appendTens m n rest).toNat = rest.toNat * 2 ^ (10 * n) % m.toNat := by
  induction n generalizing rest with
  | zero => rw [appendTens, Nat.mul_zero, pow_zero, Nat.mul_one, Nat.mod_eq_of_lt hrest]
  | succ n ih =>
    have hstep : ((rest <<< 10) % m).toNat = rest.toNat * 2 ^ 10 % m.toNat := by
      rw [UInt64.toNat_mod]
      exact congrArg (· % m.toNat) (toNat_shiftLeft (hrest.trans hm) le_rfl)
    have hless : ((rest <<< 10) % m).toNat < m.toNat := by
      rw [hstep]
      exact Nat.mod_lt _ (Nat.zero_lt_of_lt hrest)
    rw [appendTens, ih hless, hstep, Nat.mul_mod, Nat.mod_mod, ← Nat.mul_mod, Nat.mul_assoc,
      ← Nat.pow_add, Nat.mul_succ, Nat.add_comm 10]

theorem toNat_shiftMod {a m : UInt64} (ha : a.toNat < 2 ^ 53) (hpos : 0 < m.toNat)
    (hm : m.toNat < 2 ^ 53) (k : Nat) :
    (shiftMod a k m).toNat = a.toNat * 2 ^ k % m.toNat := by
  have hfirst : ((a <<< (k % 10).toUInt64) % m).toNat = a.toNat * 2 ^ (k % 10) % m.toNat := by
    rw [UInt64.toNat_mod, toNat_shiftLeft ha (by omega)]
  have hless : ((a <<< (k % 10).toUInt64) % m).toNat < m.toNat := by
    rw [hfirst]
    exact Nat.mod_lt _ hpos
  rw [shiftMod, toNat_appendTens hm _ hless, hfirst, Nat.mul_mod, Nat.mod_mod, ← Nat.mul_mod,
    Nat.mul_assoc, ← Nat.pow_add, Nat.mod_add_div]

theorem isFinite_zero : zero.isFinite = true := by rfl

theorem value_zero : value zero = 0 := by
  rw [value_eq]
  rfl

section

variable {a b : Float} (ha : a.isFinite = true) (hb : b.isFinite = true) (hne : value b ≠ 0)
include hb hne

theorem mantissa_pos : 0 < (mantissa b).toNat := by
  rw [Nat.pos_iff_ne_zero]
  intro hzero
  have hsize := abs_value_eq hb
  rw [hzero, Nat.cast_zero, zero_mul, abs_eq_zero] at hsize
  exact hne hsize

theorem unit_le_abs_value : (2 : ℚ) ^ ((rank b : Int) - 1074) ≤ |value b| := by
  have hone : (1 : ℚ) ≤ (mantissa b).toNat := by exact_mod_cast mantissa_pos hb hne
  rw [abs_value_eq hb]
  exact le_mul_of_one_le_left (by positivity) hone

/-- A divisor's unit is a double. -/
theorem value_unit : (b.abs / (mantissa b).toFloat).isFinite = true ∧
    value (b.abs / (mantissa b).toFloat) = 2 ^ ((rank b : Int) - 1074) := by
  obtain ⟨hfinite, hvalue⟩ := value_toFloat (isCanonical_mantissa hb).lt
  have hmantissa : ((mantissa b).toNat : ℚ) ≠ 0 := by exact_mod_cast (mantissa_pos hb hne).ne'
  have hunit : (0 : ℚ) < 2 ^ ((rank b : Int) - 1074) := by positivity
  have hnearest := isNearest_div (isFinite_abs hb) hfinite (by rwa [hvalue])
  rw [value_abs hb, hvalue, abs_value_eq hb, mul_div_cancel_left₀ _ hmantissa] at hnearest
  refine hnearest.exact ⟨1, _, by decide, (isCanonical_mantissa hb).least, ?_⟩ ?_
  · rw [abs_of_pos hunit, Nat.cast_one, one_mul]
  · rw [abs_of_pos hunit]
    exact (unit_le_abs_value hb hne).trans_lt (abs_value_lt hb)

/-- What is left of a mantissa is as many units of the divisor. -/
theorem value_mul_unit {size : UInt64} (hsize : size.toNat < (mantissa b).toNat) :
    (size.toFloat * (b.abs / (mantissa b).toFloat)).isFinite = true ∧
      value (size.toFloat * (b.abs / (mantissa b).toFloat)) =
        size.toNat * 2 ^ ((rank b : Int) - 1074) := by
  have hcanonical := isCanonical_mantissa hb
  obtain ⟨hunitFinite, hunit⟩ := value_unit hb hne
  obtain ⟨hsizeFinite, hsizeValue⟩ := value_toFloat (hsize.trans hcanonical.lt)
  have hnearest := isNearest_mul hsizeFinite hunitFinite
  rw [hsizeValue, hunit] at hnearest
  have hnonneg : (0 : ℚ) ≤ size.toNat * 2 ^ ((rank b : Int) - 1074) := by positivity
  refine hnearest.exact ⟨size.toNat, _, hsize.trans hcanonical.lt, hcanonical.least,
    abs_of_nonneg hnonneg⟩ ?_
  rw [abs_of_nonneg hnonneg]
  refine lt_of_le_of_lt ?_ (abs_value_lt hb)
  rw [abs_value_eq hb]
  exact mul_le_mul_of_nonneg_right (Nat.cast_le.2 hsize.le) (by positivity)

include ha

/-- The mantissa of the dividend, in units of the divisor, leaves what the dividend's size does. -/
theorem value_shiftMod_mul_unit (hle : |value b| ≤ |value a|) :
    ((shiftMod (mantissa a) (rank a - rank b) (mantissa b)).toFloat *
      (b.abs / (mantissa b).toFloat)).isFinite = true ∧
    value ((shiftMod (mantissa a) (rank a - rank b) (mantissa b)).toFloat *
      (b.abs / (mantissa b).toFloat)) = Exact.truncMod |value a| (value b) := by
  have hsize := toNat_shiftMod (isCanonical_mantissa ha).lt (mantissa_pos hb hne)
    (isCanonical_mantissa hb).lt (rank a - rank b)
  have hless : (shiftMod (mantissa a) (rank a - rank b) (mantissa b)).toNat <
      (mantissa b).toNat := by
    rw [hsize]
    exact Nat.mod_lt _ (mantissa_pos hb hne)
  have hdividend : |value a| = ((mantissa a).toNat * 2 ^ (rank a - rank b) : Nat) *
      2 ^ ((rank b : Int) - 1074) := by
    -- a double that is not smaller than another has no smaller exponent
    have hrank : rank b ≤ rank a := by
      rw [abs_value_eq ha, abs_value_eq hb] at hle
      rcases (isCanonical_mantissa hb).lex_of_le (isCanonical_mantissa ha) hle with h | ⟨h, -⟩ <;>
        omega
    have hexponent : (rank a : Int) - 1074 =
        ((rank a - rank b : Nat) : Int) + ((rank b : Int) - 1074) := by omega
    rw [abs_value_eq ha, hexponent, zpow_add₀ two_ne_zero, zpow_natCast]
    push_cast
    ring
  have hunit : (2 : ℚ) ^ ((rank b : Int) - 1074) ≠ 0 := by positivity
  obtain ⟨hfinite, hrest⟩ := value_mul_unit hb hne hless
  refine ⟨hfinite, ?_⟩
  rw [hrest, hsize, ← Exact.truncMod_abs_right, hdividend, abs_value_eq hb,
    Exact.truncMod_natCast_mul _ _ hunit]

/-- The remainder of finite doubles is exact. -/
theorem value_truncMod : (truncMod a b).isFinite = true ∧
    value (truncMod a b) = Exact.truncMod (value a) (value b) := by
  have hsizes : a.abs < b.abs ↔ |value a| < |value b| := by
    rw [lt_iff_value_lt (isFinite_abs ha) (isFinite_abs hb), value_abs ha, value_abs hb]
  have hsign : a < zero ↔ value a < 0 := by rw [lt_iff_value_lt ha isFinite_zero, value_zero]
  unfold truncMod
  split
  next hlt => exact ⟨ha, (Exact.truncMod_of_abs_lt (hsizes.1 hlt)).symm⟩
  next hge =>
    have hdivisor : (b == zero) = false := by
      rw [← Bool.not_eq_true, beq_iff_value_eq hb isFinite_zero, value_zero]
      exact hne
    rw [ha, isNaN_of_isFinite hb, hdivisor, Bool.not_true, Bool.or_false, Bool.or_false,
      if_neg Bool.false_ne_true]
    dsimp only
    obtain ⟨hfinite, hrest⟩ := value_shiftMod_mul_unit ha hb hne (not_lt.1 (mt hsizes.2 hge))
    split
    next hneg =>
      refine ⟨isFinite_opposite hfinite, ?_⟩
      rw [value_neg hfinite, hrest, abs_of_neg (hsign.1 hneg), Exact.truncMod_neg_left, neg_neg]
    next hnonneg =>
      refine ⟨hfinite, ?_⟩
      rw [hrest, abs_of_nonneg (not_lt.1 (mt hsign.2 hnonneg))]

end

section

variable {a b : Float} (ha : a.isFinite = true) (hb : b.isFinite = true) (hpos : 0 < value b)
include ha hb hpos

/-- The remainder whose quotient is rounded down, of a positive divisor: the divisor is added to a
negative remainder, and the sum is rounded. -/
theorem floorMod_cases :
    (Exact.truncMod (value a) (value b) = 0 ∧ floorMod a b = zero) ∨
    (0 < Exact.truncMod (value a) (value b) ∧ (floorMod a b).isFinite = true ∧
      value (floorMod a b) = Exact.truncMod (value a) (value b)) ∨
    (Exact.truncMod (value a) (value b) < 0 ∧
      IsNearest (Exact.truncMod (value a) (value b) + value b) (floorMod a b)) := by
  obtain ⟨hfinite, hvalue⟩ := value_truncMod ha hb hpos.ne'
  have hdivisor : ¬ b < zero := by
    rw [lt_iff_value_lt hb isFinite_zero, value_zero]
    exact not_lt.2 hpos.le
  have hzero : (truncMod a b == zero) = true ↔ Exact.truncMod (value a) (value b) = 0 := by
    rw [beq_iff_value_eq hfinite isFinite_zero, value_zero, hvalue]
  have hsign : truncMod a b < zero ↔ Exact.truncMod (value a) (value b) < 0 := by
    rw [lt_iff_value_lt hfinite isFinite_zero, value_zero, hvalue]
  unfold floorMod
  dsimp only
  rcases lt_trichotomy (Exact.truncMod (value a) (value b)) 0 with hneg | hrest | hrest
  · have hsum := isNearest_add hfinite hb
    have hdifferent : (truncMod a b < zero) ≠ (b < zero) := fun h =>
      hdivisor (h.mp (hsign.2 hneg))
    rw [hvalue] at hsum
    rw [if_neg (mt hzero.1 hneg.ne), if_pos hdifferent]
    exact .inr (.inr ⟨hneg, hsum⟩)
  · rw [if_pos (hzero.2 hrest), if_neg hdivisor]
    exact .inl ⟨hrest, rfl⟩
  · have hsame : (truncMod a b < zero) = (b < zero) :=
      propext (iff_of_false (mt hsign.1 (not_lt.2 hrest.le)) hdivisor)
    rw [if_neg (mt hzero.1 hrest.ne'), if_neg (not_not.2 hsame)]
    exact .inr (.inl ⟨hrest, hfinite, hvalue⟩)

theorem floorMod_mem : (floorMod a b).isFinite = true ∧
    0 ≤ value (floorMod a b) ∧ value (floorMod a b) ≤ value b := by
  have hless := Exact.abs_truncMod_lt (value a) hpos.ne'
  rw [abs_of_pos hpos, abs_lt] at hless
  rcases floorMod_cases ha hb hpos with ⟨-, hrest⟩ | ⟨hrest, hfinite, hvalue⟩ | ⟨hrest, hsum⟩
  · rw [hrest, value_zero]
    exact ⟨isFinite_zero, le_rfl, hpos.le⟩
  · rw [hvalue]
    exact ⟨hfinite, hrest.le, hless.2.le⟩
  · have hnonneg : 0 ≤ Exact.truncMod (value a) (value b) + value b := by linarith
    have hle : Exact.truncMod (value a) (value b) + value b ≤ value b := by linarith
    have hbound : |Exact.truncMod (value a) (value b) + value b| < overflowBound := by
      rw [abs_of_nonneg hnonneg]
      exact hle.trans_lt (abs_lt.1 (abs_value_lt hb)).2
    have hfinite := hsum.isFinite_iff.2 hbound
    refine ⟨hfinite, hsum.le_value hfinite ?_ hnonneg,
      hsum.value_le hfinite (isRepresentable_value hb) hle⟩
    rw [← value_zero]
    exact isRepresentable_value isFinite_zero

end

end Double

end ZeroCurve

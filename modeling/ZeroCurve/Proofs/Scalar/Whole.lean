import ZeroCurve.Proofs.Scalar.Rounding

/-!
# Whole numbers and doubles

A double that is less than the double of a whole number is cut off to less than that number, though
large whole numbers are rounded when they are made doubles.
-/

namespace ZeroCurve.Double

open Float.Model
open Float.Model.UnpackedFloat

/-- Zero without a sign, or a positive number up to a bound. -/
def IsAtMost (bound : ℚ) : UnpackedFloat → Prop
  | .zero s => s = .positive
  | .finite s m e _ => s = .positive ∧ (m * 2 ^ e : ℚ) ≤ bound
  | _ => False

/-- What is rounded and packed stays below any double that it was below. -/
theorem IsRounded.isAtMost_pack {x : ℚ} {r n : Nat} {t k : Int} (h : IsRounded x r t)
    (hn : IsCanonical n k) (hk : k ≤ 971) (hx : x ≤ n * 2 ^ k) :
    IsAtMost (n * 2 ^ k) (Float.Model.pack (carry .positive r t)).unpack := by
  rcases h.carry_cases .positive with ⟨-, hcarry⟩ | ⟨n', k', hn', hc, hvalue, hcarry⟩
  · rw [hcarry]
    rfl
  · have hle : (n' * 2 ^ k' : ℚ) ≤ n * 2 ^ k := hvalue.trans_le (h.le_of_le hn.lt hn.least hx)
    have hexponent : k' ≤ 971 := by
      rcases hc.lex_of_le hn hle with hlt | ⟨rfl, -⟩ <;> omega
    rw [hcarry, unpack_pack_finite hc, if_pos hexponent]
    exact ⟨rfl, hle⟩

theorem isAtMost_pack_ofNat {n m : Nat} {k : Int} (hm : IsCanonical m k) (hk : k ≤ 971)
    (h : (n : ℚ) ≤ m * 2 ^ k) :
    IsAtMost (m * 2 ^ k) (Float.Model.pack (UnpackedFloat.ofNat Format.binary64 n)).unpack := by
  rcases Nat.eq_zero_or_pos n with rfl | hn
  · rfl
  · obtain ⟨r, t, hrounded, hround⟩ := round_eq_carry (Nat.ne_of_gt hn) 0
    have hnormal : UnpackedFloat.ofNat Format.binary64 n = carry .positive r t := by
      rw [← hround .positive, UnpackedFloat.ofNat, UnpackedFloat.ofInt, UnpackedFloat.normalize,
        Int.compare_eq_gt.2 (Int.natCast_pos.2 hn)]
      rfl
    rw [hnormal]
    rw [zpow_zero, mul_one] at hrounded
    exact hrounded.isAtMost_pack hm hk h

theorem isAtMost_pack_mul {n a m : Nat} {e b k : Int} {hn : 0 < n} {ha : 0 < a}
    (hm : IsCanonical m k) (hk : k ≤ 971) (hlog : 52 ≤ (n * a).log2)
    (h : (n * 2 ^ e * (a * 2 ^ b) : ℚ) ≤ m * 2 ^ k) :
    IsAtMost (m * 2 ^ k) (Float.Model.pack (UnpackedFloat.mul Format.binary64
      (.finite .positive n e hn) (.finite .positive a b ha))).unpack := by
  obtain ⟨r, t, hrounded, hround⟩ := mul_eq_carry (e := e) (k := b) (.inl hlog)
  have hproduct : UnpackedFloat.mul Format.binary64 (.finite .positive n e hn)
      (.finite .positive a b ha) = carry .positive r t := hround .positive
  rw [hproduct]
  exact hrounded.isAtMost_pack hm hk h

/-- A factor one does not take a double above another. -/
theorem isAtMost_mul_one {v : Float} {m : Nat} {k : Int} (hm : IsCanonical m k) (hk : k ≤ 971)
    (h : IsAtMost (m * 2 ^ k) v.toModel.unpack) :
    IsAtMost (m * 2 ^ k) (v * Float.ofBits 0x3ff0000000000000).toModel.unpack := by
  have hone : (Float.ofBits 0x3ff0000000000000).toModel.unpack =
    .finite .positive (2 ^ 52) (-52) (Nat.two_pow_pos 52) := by rfl
  show IsAtMost _ (Float.Model.pack (UnpackedFloat.mul _ v.toModel.unpack _)).unpack
  rw [hone]
  cases hu : v.toModel.unpack with
  | notANumber | infinity s =>
    rw [hu] at h
    exact h.elim
  | zero s =>
    rw [hu] at h
    cases h
    rfl
  | finite s n e hn =>
    rw [hu] at h
    obtain ⟨rfl, hle⟩ := h
    have hlog : 52 ≤ (n * 2 ^ 52).log2 := by
      rw [← Nat.shiftLeft_eq, log2_shiftLeft (Nat.ne_of_gt hn)]
      exact Nat.le_add_left 52 _
    refine isAtMost_pack_mul hm hk hlog ?_
    have hunit : ((2 ^ 52 : Nat) * 2 ^ (-52 : Int) : ℚ) = 1 := by norm_num
    rw [hunit, mul_one]
    exact hle

theorem isAtMost_ofScientific {n m : Nat} {k : Int} (hm : IsCanonical m k) (hk : k ≤ 971)
    (h : (n : ℚ) ≤ m * 2 ^ k) :
    IsAtMost (m * 2 ^ k)
      (Float.Model.pack (UnpackedFloat.ofScientific Format.binary64 n 0)).unpack := by
  unfold UnpackedFloat.ofScientific
  split
  · rfl
  next hn =>
    have hlimit : (0 : Int) < 2 ^ Format.binary64.exponentBits := by decide
    rw [if_neg (by decide), if_neg (by omega), if_pos (Int.le_refl 0)]
    have hlog : 52 ≤ (n <<< 53 * 10 ^ (0 : Int).toNat).log2 := by
      show 52 ≤ (n <<< 53 * 1).log2
      rw [Nat.mul_one, log2_shiftLeft hn]
      omega
    refine isAtMost_pack_mul hm hk hlog ?_
    have hvalue : ((n <<< 53 : Nat) * 2 ^ (-53 : Int) *
        ((10 ^ (0 : Int).toNat : Nat) * 2 ^ (0 : Int)) : ℚ) = n := by
      rw [Nat.shiftLeft_eq]
      push_cast
      field_simp
      norm_num
    exact hvalue.trans_le h

/-- Making a whole number a double does not take it above a double that it was not above. -/
theorem isAtMost_ofNat {n m : Nat} {k : Int} (hm : IsCanonical m k) (hk : k ≤ 971)
    (h : (n : ℚ) ≤ m * 2 ^ k) : IsAtMost (m * 2 ^ k) (Float.ofNat n).toModel.unpack := by
  show IsAtMost _ (Float.ofScientific n false 0).toModel.unpack
  unfold Float.ofScientific
  split
  next hsmall =>
    have hn : n.toUInt64.toNat = n :=
      UInt64.toNat_ofNat_of_lt' (Nat.lt_trans hsmall.1 (by decide))
    have hfactor : IsAtMost (m * 2 ^ k) n.toUInt64.toFloat.toModel.unpack := by
      refine isAtMost_pack_ofNat hm hk ?_
      rw [hn]
      exact h
    exact isAtMost_mul_one hm hk hfactor
  next hlarge => exact isAtMost_ofScientific hm hk h

theorem trunc_zero_mantissa (negative : Bool) (e : Int) :
    Dyadic.trunc ⟨negative, 0, e⟩ = 0 := by
  simp [Dyadic.trunc]

theorem trunc_eq (v : Float) : trunc v =
    match v.toModel.unpack with
    | .finite s m e _ => Dyadic.trunc ⟨s == .negative, m, e⟩
    | _ => 0 := by
  unfold trunc
  rw [ofFloat?_eq]
  cases v.toModel.unpack with
  | zero s => exact trunc_zero_mantissa _ _
  | _ => rfl

/-- Cutting off does not make a positive number larger. -/
theorem trunc_positive_le (m : Nat) (e : Int) :
    ((Dyadic.trunc ⟨false, m, e⟩ : Int) : ℚ) ≤ m * 2 ^ e := by
  unfold Dyadic.trunc
  dsimp only
  rw [if_neg Bool.false_ne_true, Int.cast_natCast]
  split
  next he =>
    obtain ⟨n, rfl⟩ := Int.eq_ofNat_of_zero_le he
    show ((m * 2 ^ n : Nat) : ℚ) ≤ _
    push_cast
    rw [zpow_natCast]
  next he =>
    obtain ⟨n, rfl⟩ : ∃ n : Nat, e = -n := ⟨(-e).toNat, by omega⟩
    rw [Int.neg_neg, Int.toNat_natCast, zpow_neg, zpow_natCast, ← div_eq_mul_inv]
    have hpow : (2 ^ n : ℚ) = ((2 ^ n : Nat) : ℚ) := by push_cast; rfl
    rw [hpow]
    exact Nat.cast_div_le

/-- What is below the double of a positive whole number is cut off to below the number. -/
theorem trunc_lt_of_lt_ofInt {v : Float} {h : Int} (hpos : 0 < h) (hlt : v < Scalar.ofInt h) :
    trunc v < h := by
  rw [trunc_eq]
  cases hu : v.toModel.unpack with
  | notANumber | infinity s | zero s => exact hpos
  | finite s m e hm =>
    cases s with
    | negative =>
      show -(_ : Int) < h
      omega
    | positive =>
      obtain ⟨n, rfl⟩ := Int.eq_ofNat_of_zero_le hpos.le
      obtain ⟨hcanonical, he⟩ := isCanonical_unpack hu
      by_contra hge
      have hle : (n : ℚ) ≤ m * 2 ^ e := by
        refine le_trans ?_ (trunc_positive_le m e)
        exact_mod_cast Int.not_lt.1 hge
      have hbound := isAtMost_ofNat hcanonical he hle
      have hless : v.toModel.unpack.lt (Float.ofNat n).toModel.unpack = true := lt_iff_unpack.1 hlt
      rw [hu] at hless
      cases hn : (Float.ofNat n).toModel.unpack with
      | notANumber | infinity s =>
        rw [hn] at hbound
        exact hbound.elim
      | zero s =>
        rw [hn] at hless
        cases hless
      | finite s m' e' hm' =>
        rw [hn] at hbound hless
        obtain ⟨rfl, hle'⟩ := hbound
        rw [not_finite_lt (isCanonical_unpack hn).1 hcanonical hle'] at hless
        cases hless

theorem trunc_eq_zero {negative : Bool} {m : Nat} {e : Int} (he : e < 0)
    (hm : m < 2 ^ (-e).toNat) : Dyadic.trunc ⟨negative, m, e⟩ = 0 := by
  unfold Dyadic.trunc
  dsimp only
  rw [if_neg (Int.not_le.2 he)]
  show (if negative then -((m / 2 ^ (-e).toNat : Nat) : Int) else ((m / 2 ^ (-e).toNat : Nat) : Int))
    = 0
  rw [Nat.div_eq_of_lt hm]
  cases negative <;> rfl

/-- What is above minus one is cut off to zero at least. -/
theorem trunc_nonneg_of_neg_one_lt {v : Float} (hlt : -Scalar.ofInt 1 < v) : 0 ≤ trunc v := by
  rw [trunc_eq]
  cases hu : v.toModel.unpack with
  | notANumber | infinity s | zero s => exact Int.le_refl 0
  | finite s m e hm =>
    cases s with
    | positive => exact Int.natCast_nonneg _
    | negative =>
      have hone : (-Scalar.ofInt 1 : Float).toModel.unpack =
        .finite .negative (2 ^ 52) (-52) (Nat.two_pow_pos 52) := by rfl
      have hless := lt_iff_unpack.1 hlt
      rw [hone, hu] at hless
      have hcanonical := (isCanonical_unpack hu).1
      suffices Dyadic.trunc ⟨true, m, e⟩ = 0 from this.ge
      -- the exponent of minus one with the least mantissa there, or a smaller exponent
      rcases Int.lt_trichotomy e (-52) with hexponent | rfl | hexponent
      · have hpow : 2 ^ 53 ≤ 2 ^ (-e).toNat := Nat.pow_le_pow_right Nat.two_pos (by omega)
        exact trunc_eq_zero (by omega) (Nat.lt_of_lt_of_le hcanonical.lt hpow)
      · refine trunc_eq_zero (by decide) ?_
        simp only [UnpackedFloat.lt, UnpackedFloat.compare, Std.compare_self, Ordering.eq_then,
          beq_iff_eq, Option.some.injEq, Ordering.swap_eq_lt, Nat.compare_eq_gt] at hless
        exact hless
      · simp [UnpackedFloat.lt, UnpackedFloat.compare, Int.compare_eq_lt.2 hexponent] at hless

end ZeroCurve.Double

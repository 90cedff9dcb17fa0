import ZeroCurve.Proofs.Scalar.Unpacked

/-!
# The numbers that doubles are

Each finite double is one mantissa and one exponent, so the order of doubles is that of the
exponents first and the mantissas then. It is the order of the numbers that they stand for, and
packing such a pair loses nothing.
-/

namespace ZeroCurve.Double

open Float.Model
open Float.Model.UnpackedFloat

theorem lt_iff_unpack {v w : Float} :
    v < w ↔ v.toModel.unpack.lt w.toModel.unpack = true := decide_eq_true_iff

/-- Whether a double can have these as its mantissa and exponent, or could if the exponent were not
too large. -/
structure IsCanonical (m : Nat) (e : Int) : Prop where
  lt : m < 2 ^ 53
  least : -1074 ≤ e
  full : 2 ^ 52 ≤ m ∨ e = -1074

theorem two_mul_zpow_le {e k : Int} (h : k < e) : (2 : ℚ) * 2 ^ k ≤ 2 ^ e := by
  rw [← zpow_one_add₀ two_ne_zero]
  exact zpow_le_zpow_right₀ one_le_two (by omega)

/-- Of canonical pairs the larger number has the larger exponent, or the same and the larger
mantissa. -/
theorem IsCanonical.lex_of_le {m n : Nat} {e k : Int} (hm : IsCanonical m e) (hn : IsCanonical n k)
    (h : (m * 2 ^ e : ℚ) ≤ n * 2 ^ k) : e < k ∨ e = k ∧ m ≤ n := by
  rcases Int.lt_trichotomy e k with hlt | rfl | hgt
  · exact .inl hlt
  · refine .inr ⟨rfl, ?_⟩
    have hunit : (0 : ℚ) < 2 ^ e := by positivity
    exact Nat.cast_le.1 (le_of_mul_le_mul_right h hunit)
  · exfalso
    have hfull : 2 ^ 52 ≤ m := hm.full.resolve_right (by have := hn.least; omega)
    have hunit : (0 : ℚ) < 2 ^ k := by positivity
    have hscale := two_mul_zpow_le hgt
    have hm' : (2 ^ 52 : ℚ) ≤ m := by exact_mod_cast hfull
    have hn' : (n : ℚ) < 2 ^ 53 := by exact_mod_cast hn.lt
    have hlow : (2 ^ 52 * (2 * 2 ^ k) : ℚ) ≤ m * 2 ^ e :=
      mul_le_mul hm' hscale (by positivity) (by positivity)
    have hhigh : (n * 2 ^ k : ℚ) < 2 ^ 53 * 2 ^ k := mul_lt_mul_of_pos_right hn' hunit
    linarith

/-- Canonical pairs are ordered by their exponents first and their mantissas then. -/
theorem IsCanonical.lt_iff_lex {m n : Nat} {e k : Int} (hm : IsCanonical m e)
    (hn : IsCanonical n k) : (m * 2 ^ e : ℚ) < n * 2 ^ k ↔ e < k ∨ e = k ∧ m < n := by
  constructor
  · intro h
    rcases hm.lex_of_le hn h.le with hlt | ⟨rfl, hle⟩
    · exact .inl hlt
    · refine .inr ⟨rfl, lt_of_le_of_ne hle ?_⟩
      rintro rfl
      exact lt_irrefl _ h
  · intro hlex
    by_contra hge
    rcases hn.lex_of_le hm (not_lt.1 hge) with hlt | ⟨rfl, hle⟩ <;> omega

/-- Equal numbers have equal pairs. -/
theorem IsCanonical.eq_of_eq {m n : Nat} {e k : Int} (hm : IsCanonical m e) (hn : IsCanonical n k)
    (h : (m * 2 ^ e : ℚ) = n * 2 ^ k) : m = n ∧ e = k := by
  have hle := hm.lex_of_le hn h.le
  have hge := hn.lex_of_le hm h.ge
  omega

/-- Below a number whose mantissa is not the least of its exponent nothing is nearer than one unit. -/
theorem IsCanonical.le_of_lt {m n : Nat} {e k : Int} (hm : IsCanonical m e) (hn : IsCanonical n k)
    (hleast : 2 ^ 52 < n) (h : (m * 2 ^ e : ℚ) < n * 2 ^ k) : (m * 2 ^ e : ℚ) ≤ (n - 1) * 2 ^ k := by
  have hunit : (0 : ℚ) < 2 ^ k := by positivity
  rcases (hm.lt_iff_lex hn).1 h with hlt | ⟨rfl, hlt⟩
  · have hmRat : (m : ℚ) ≤ 2 ^ 53 := by exact_mod_cast hm.lt.le
    have hnRat : ((2 ^ 52 + 1 : Nat) : ℚ) ≤ n := Nat.cast_le.2 hleast
    push_cast at hnRat
    calc (m * 2 ^ e : ℚ) ≤ 2 ^ 53 * 2 ^ e := mul_le_mul_of_nonneg_right hmRat (by positivity)
      _ = 2 ^ 52 * (2 * 2 ^ e) := by ring
      _ ≤ 2 ^ 52 * 2 ^ k := mul_le_mul_of_nonneg_left (two_mul_zpow_le hlt) (by positivity)
      _ ≤ (n - 1) * 2 ^ k := mul_le_mul_of_nonneg_right (by linarith) hunit.le
  · have hle : ((m + 1 : Nat) : ℚ) ≤ n := Nat.cast_le.2 hlt
    push_cast at hle
    exact mul_le_mul_of_nonneg_right (by linarith) hunit.le

theorem not_finite_lt {m n : Nat} {e k : Int} {hm : 0 < m} {hn : 0 < n} (hcm : IsCanonical m e)
    (hcn : IsCanonical n k) (h : (m * 2 ^ e : ℚ) ≤ n * 2 ^ k) :
    (UnpackedFloat.finite .positive n k hn).lt (.finite .positive m e hm) = false := by
  rcases hcm.lex_of_le hcn h with hlt | ⟨rfl, hle⟩
  · simp [UnpackedFloat.lt, UnpackedFloat.compare, Int.compare_eq_gt.2 hlt]
  · rcases Nat.lt_or_eq_of_le hle with hlt | rfl
    · simp [UnpackedFloat.lt, UnpackedFloat.compare, Nat.compare_eq_gt.2 hlt]
    · simp [UnpackedFloat.lt, UnpackedFloat.compare]

/-- A finite double is taken apart into a canonical pair. -/
theorem isCanonical_unpack {v : Float} {s : Sign} {m : Nat} {e : Int} {hm : 0 < m}
    (h : v.toModel.unpack = .finite s m e hm) : IsCanonical m e ∧ e ≤ 971 := by
  have hparts := ofFloat?_eq v
  rw [h, dyadic?, Dyadic.ofFloat?] at hparts
  simp only [toNat_biased, toNat_fraction] at hparts
  split at hparts
  · cases hparts
  next hfinite =>
    split at hparts
    · simp only [Option.some.injEq, Dyadic.mk.injEq] at hparts
      obtain ⟨-, rfl, rfl⟩ := hparts
      exact ⟨⟨by omega, by decide, .inr rfl⟩, by decide⟩
    next hnormal =>
      simp only [Option.some.injEq, Dyadic.mk.injEq] at hparts
      obtain ⟨-, rfl, rfl⟩ := hparts
      exact ⟨⟨by omega, by omega, .inl (by omega)⟩, by omega⟩

theorem unpack_pack_normal {s : Sign} {m : Nat} {e : Int} {hm : 0 < m} (hfull : 2 ^ 52 ≤ m)
    (hlt : m < 2 ^ 53) (hleast : -1074 ≤ e) (hgreatest : e ≤ 971) :
    (Float.Model.pack (.finite s m e hm)).unpack = .finite s m e hm := by
  have hlog : m.log2 = 52 := (Nat.log2_eq_iff (Nat.ne_of_gt hm)).2 ⟨hfull, hlt⟩
  obtain ⟨biased, hbiased⟩ : ∃ biased : Nat, (biased : Int) = e + 1075 :=
    ⟨(e + 1075).toNat, by omega⟩
  have hfield : (e + (Format.binary64.exponentBias : Int) + (52 : Nat)).toNat = biased := by
    show (e + (1023 : Int) + (52 : Nat)).toNat = biased
    omega
  have hexponent : (BitVec.ofNat 11 biased).toNat = biased := by
    rw [BitVec.toNat_ofNat]
    omega
  have hmax : BitVec.ofNat 11 biased ≠ -1#11 := by
    intro h
    have hbits : biased = 2047 := hexponent.symm.trans (congrArg BitVec.toNat h)
    omega
  have hzero : BitVec.ofNat 11 biased ≠ 0#11 := by
    intro h
    have hbits : biased = 0 := hexponent.symm.trans (congrArg BitVec.toNat h)
    omega
  have hmantissa : (1#1 ++ BitVec.ofNat 52 m).toNat = m := by
    rw [toNat_implicit, BitVec.toNat_ofNat]
    omega
  show UnpackedFloat.unpack _ (UnpackedFloat.pack _ _) = _
  simp only [UnpackedFloat.pack, hfield, hlog]
  rw [if_neg (by omega), if_pos (by decide)]
  unfold UnpackedFloat.unpack
  simp only [unpackMantissa_packComponents, unpackExponent_packComponents,
    unpackSign_packComponents, Sign.ofBitVec_toBitVec, if_neg hmax, if_neg hzero, hexponent,
    hmantissa]
  congr 1
  show (biased : Int) - (1023 + (52 : Nat)) = e
  omega

theorem unpack_pack_subnormal {s : Sign} {m : Nat} {hm : 0 < m} (hlt : m < 2 ^ 52) :
    (Float.Model.pack (.finite s m (-1074) hm)).unpack = .finite s m (-1074) hm := by
  have hlog : m.log2 < 52 := (Nat.log2_lt (Nat.ne_of_gt hm)).2 hlt
  have hmantissa : (BitVec.ofNat 52 m).toNat = m := by
    rw [BitVec.toNat_ofNat, Nat.mod_eq_of_lt hlt]
  have hne : BitVec.ofNat 52 m ≠ 0#52 := by
    intro h
    have hbits : m = 0 := hmantissa.symm.trans (congrArg BitVec.toNat h)
    omega
  show UnpackedFloat.unpack _ (UnpackedFloat.pack _ _) = _
  simp only [UnpackedFloat.pack]
  rw [if_neg (by decide), if_neg (by simp only [Format.mantissaBits]; omega)]
  unfold UnpackedFloat.unpack
  simp only [unpackMantissa_packComponents, unpackExponent_packComponents,
    unpackSign_packComponents, Sign.ofBitVec_toBitVec, dif_neg hne, hmantissa]
  rfl

theorem unpack_pack_of_lt {s : Sign} {m : Nat} {e : Int} {hm : 0 < m} (h : 971 < e) :
    (Float.Model.pack (.finite s m e hm)).unpack = .infinity s := by
  have hfield : (2 : Nat) ^ 11 ≤
      (e + (Format.binary64.exponentBias : Int) + (52 : Nat)).toNat + 1 := by
    show 2 ^ 11 ≤ (e + (1023 : Int) + (52 : Nat)).toNat + 1
    omega
  show UnpackedFloat.unpack _ (UnpackedFloat.pack _ _) = _
  simp only [UnpackedFloat.pack]
  rw [if_pos hfield]
  cases s <;> rfl

theorem unpack_pack_infinity (s : Sign) :
    (Float.Model.pack (.infinity s)).unpack = .infinity s := by
  cases s <;> rfl

/-- A canonical pair is packed without loss, unless the exponent is too large. -/
theorem unpack_pack_finite {s : Sign} {m : Nat} {e : Int} {hm : 0 < m} (h : IsCanonical m e) :
    (Float.Model.pack (.finite s m e hm)).unpack =
      if e ≤ 971 then .finite s m e hm else .infinity s := by
  split
  next hgreatest =>
    by_cases hfull : 2 ^ 52 ≤ m
    · exact unpack_pack_normal hfull h.lt h.least hgreatest
    · obtain rfl := h.full.resolve_left hfull
      exact unpack_pack_subnormal (Nat.lt_of_not_le hfull)
  next hgreatest => exact unpack_pack_of_lt (Int.lt_of_not_ge hgreatest)

end ZeroCurve.Double

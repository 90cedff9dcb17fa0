import ZeroCurve.Numeral.Shortest
import ZeroCurve.Proofs.Scalar.Decimal

/-!
# Shortest digits read back

The digits that are chosen for a positive double stand for a number that is rounded to this double
again (`isNearest_shortest`). The numbers that do so lie between the middles to the neighbouring doubles,
and comparisons of whole numbers decide which these are.
-/

namespace ZeroCurve.Scientific

open Double

theorem zpow_mul_pow_toNat {b : ℚ} (hb : b ≠ 0) (i : Int) :
    b ^ i * b ^ (-i).toNat = b ^ i.toNat := by
  rw [← zpow_natCast, ← zpow_natCast, ← zpow_add₀ hb]
  congr 1
  omega

section

variable {a b : Nat} {i j : Int}

/-- Both sides of a comparison in whole numbers, as they stand for two numbers times one factor. -/
theorem cross_multiplied : ∃ factor : ℚ, 0 < factor ∧
    a * 10 ^ i * factor = (a * 10 ^ i.toNat * 2 ^ (-j).toNat : Nat) ∧
    b * 2 ^ j * factor = (b * 2 ^ j.toNat * 10 ^ (-i).toNat : Nat) := by
  have hten := zpow_mul_pow_toNat (by norm_num : (10 : ℚ) ≠ 0) i
  have htwo := zpow_mul_pow_toNat (by norm_num : (2 : ℚ) ≠ 0) j
  refine ⟨10 ^ (-i).toNat * 2 ^ (-j).toNat, by positivity, ?_, ?_⟩
  · push_cast
    rw [← hten]
    ring
  · push_cast
    rw [← htwo]
    ring

theorem leDyadic_iff : leDyadic a i b j = true ↔ (a * 10 ^ i : ℚ) ≤ b * 2 ^ j := by
  obtain ⟨factor, hpos, ha, hb⟩ := cross_multiplied (a := a) (b := b) (i := i) (j := j)
  rw [← mul_le_mul_iff_left₀ hpos, ha, hb, Nat.cast_le]
  exact decide_eq_true_iff

theorem geDyadic_iff : geDyadic a i b j = true ↔ (b * 2 ^ j : ℚ) ≤ a * 10 ^ i := by
  obtain ⟨factor, hpos, ha, hb⟩ := cross_multiplied (a := a) (b := b) (i := i) (j := j)
  rw [← mul_le_mul_iff_left₀ hpos, ha, hb, Nat.cast_le]
  exact decide_eq_true_iff

end

/-- How far below a double the middle to its lower neighbour is, in units of its last place. -/
def lowerGap (d : Dyadic) : ℚ :=
  if d.mantissa = 0x10000000000000 ∧ -1074 < d.exponent then 1 / 4 else 1 / 2

/-- What reads back lies between the two middles, and on one of them only if the mantissa is even. -/
theorem mem_of_readsBackAs {d : Dyadic} {s : Scientific} (hd : 0 < d.mantissa)
    (h : readsBackAs d s = true) :
    (d.mantissa - lowerGap d) * 2 ^ d.exponent ≤ s.value ∧
      s.value ≤ (d.mantissa + 1 / 2) * 2 ^ d.exponent ∧
      (s.value = (d.mantissa - lowerGap d) * 2 ^ d.exponent ∨
        s.value = (d.mantissa + 1 / 2) * 2 ^ d.exponent → Even d.mantissa) := by
  have hquarter : (2 : ℚ) ^ d.exponent = 4 * 2 ^ (d.exponent - 2) := by
    rw [zpow_sub₀ two_ne_zero]
    norm_num
    ring
  have hupper : (d.mantissa + 1 / 2 : ℚ) * 2 ^ d.exponent =
      (4 * d.mantissa + 2 : Nat) * 2 ^ (d.exponent - 2) := by
    rw [hquarter]
    push_cast
    ring
  have hlower : (d.mantissa - lowerGap d : ℚ) * 2 ^ d.exponent =
      (4 * d.mantissa - (if d.mantissa = 0x10000000000000 ∧ -1074 < d.exponent then 1 else 2) : Nat) *
        2 ^ (d.exponent - 2) := by
    rw [hquarter, lowerGap]
    split
    · rw [Nat.cast_sub (by omega)]
      push_cast
      ring
    · rw [Nat.cast_sub (by omega)]
      push_cast
      ring
  rw [hupper, hlower]
  unfold readsBackAs at h
  dsimp only at h
  split at h
  next heven =>
    rw [Bool.and_eq_true, geDyadic_iff, leDyadic_iff] at h
    exact ⟨h.1, h.2, fun _ => Nat.even_iff.2 heven⟩
  next =>
    rw [Bool.and_eq_true, Bool.not_eq_true', Bool.not_eq_true', ← Bool.not_eq_true,
      ← Bool.not_eq_true, leDyadic_iff, geDyadic_iff, not_le, not_le] at h
    refine ⟨h.1.le, h.2.le, ?_⟩
    rintro (htie | htie)
    · exact absurd htie h.1.ne'
    · exact absurd htie h.2.ne

/-- What reads back as a double is rounded to its mantissa and exponent; below a power of two the
exponent may be one less, and the mantissa come up to the next power of two. -/
theorem exists_isRounded_of_readsBackAs {d : Dyadic} {s : Scientific} (hd : 0 < d.mantissa)
    (hcanonical : IsCanonical d.mantissa d.exponent) (h : readsBackAs d s = true) :
    ∃ m e, IsRounded s.value m e ∧ (m * 2 ^ e : ℚ) = d.mantissa * 2 ^ d.exponent := by
  obtain ⟨hge, hle, heven⟩ := mem_of_readsBackAs hd h
  generalize s.value = x at hge hle heven ⊢
  have hunit : (0 : ℚ) < 2 ^ d.exponent := by positivity
  have hgap : lowerGap d ≤ 1 / 2 := by
    unfold lowerGap
    split <;> norm_num
  have hhalf : (d.mantissa - 1 / 2 : ℚ) * 2 ^ d.exponent ≤ x :=
    (mul_le_mul_of_nonneg_right (by linarith) hunit.le).trans hge
  have hlt : x < 2 ^ 53 * 2 ^ d.exponent := by
    have hm : ((d.mantissa + 1 : Nat) : ℚ) ≤ (2 ^ 53 : Nat) := Nat.cast_le.2 hcanonical.lt
    push_cast at hm
    exact hle.trans_lt (mul_lt_mul_of_pos_right (by linarith) hunit)
  by_cases hfull : d.exponent = -1074 ∨ 2 ^ 52 * 2 ^ d.exponent ≤ x
  · refine ⟨d.mantissa, d.exponent, ⟨hle, hhalf, ?_, hcanonical.least, hfull, hlt⟩, rfl⟩
    rintro (htie | htie)
    · exact heven (.inr htie)
    · -- the lower middle may be nearer than half a unit, but not for an odd mantissa
      by_cases hpower : d.mantissa = 0x10000000000000 ∧ -1074 < d.exponent
      · rw [hpower.1]
        decide
      · refine heven (.inl ?_)
        rw [htie, lowerGap, if_neg hpower]
  · rw [not_or, not_le] at hfull
    have hmantissa : d.mantissa = 2 ^ 52 := by
      have hleast : 2 ^ 52 ≤ d.mantissa := hcanonical.full.resolve_right hfull.1
      have hless : (d.mantissa : ℚ) - 1 / 2 < 2 ^ 52 :=
        lt_of_mul_lt_mul_right (hhalf.trans_lt hfull.2) hunit.le
      have hnat : (d.mantissa : ℚ) < (2 ^ 52 + 1 : Nat) := by
        push_cast
        linarith
      have := Nat.cast_lt.1 hnat
      omega
    have hleast := hcanonical.least
    have hscale : (2 : ℚ) ^ d.exponent = 2 * 2 ^ (d.exponent - 1) := by
      rw [← zpow_one_add₀ two_ne_zero]
      congr 1
      omega
    have hgapPower : lowerGap d = 1 / 4 := if_pos ⟨hmantissa, by omega⟩
    have hmRat : (d.mantissa : ℚ) = 2 ^ 52 := by exact_mod_cast hmantissa
    rw [hgapPower, hmRat, hscale] at hge
    rw [hmRat, hscale]
    rw [hscale] at hfull
    have hsmall : (0 : ℚ) < 2 ^ (d.exponent - 1) := by positivity
    refine ⟨2 ^ 53, d.exponent - 1, ?_, ?_⟩
    · constructor
      case le =>
        push_cast
        linarith [hfull.2]
      case ge =>
        push_cast
        linarith
      case even => exact fun _ => by decide
      case least => omega
      case full => exact .inr (by linarith)
      case lt => linarith [hfull.2]
    · push_cast
      ring

theorem roundDiv_cases (num den : Nat) :
    roundDiv num den = num / den ∨ roundDiv num den = num / den + 1 := by
  unfold roundDiv
  dsimp only
  split
  · exact .inl rfl
  split
  · exact .inr rfl
  · rcases Nat.mod_two_eq_zero_or_one (num / den) with h | h
    · exact .inl (by rw [h, Nat.add_zero])
    · exact .inr (by rw [h])

theorem readsBackAs_of_nearest? {d : Dyadic} {place : Int} {s : Scientific}
    (h : nearest? d place = some s) : readsBackAs d s = true := by
  unfold nearest? at h
  dsimp only at h
  split at h
  next hbelow habove =>
    cases h
    rcases roundDiv_cases (inUnits d.fraction.1 d.fraction.2 place).1
      (inUnits d.fraction.1 d.fraction.2 place).2 with hround | hround
    · rw [hround]
      exact hbelow
    · rw [hround]
      exact habove
  next hbelow _ =>
    cases h
    exact hbelow
  next _ habove =>
    cases h
    exact habove
  next => cases h

theorem value_trimZeros (s : Scientific) : s.trimZeros.value = s.value := by
  fun_induction trimZeros s with
  | case1 s h ih =>
    have hdigits : s.digits = s.digits / 10 * 10 := by omega
    rw [ih, value, value]
    show ((s.digits / 10 : Nat) : ℚ) * 10 ^ (s.exponent + 1) = _
    conv_rhs => rw [hdigits]
    rw [zpow_add_one₀ (by norm_num)]
    push_cast
    ring
  | case2 => rfl

theorem value_ofDyadic (d : Dyadic) : (ofDyadic d).value = d.mantissa * 2 ^ d.exponent := by
  unfold ofDyadic
  split
  next h =>
    obtain ⟨n, hn⟩ := Int.eq_ofNat_of_zero_le h
    show ((d.mantissa * 2 ^ d.exponent.toNat : Nat) : ℚ) * 10 ^ (0 : Int) = _
    rw [hn, Int.toNat_natCast, zpow_natCast, zpow_zero]
    push_cast
    ring
  next h =>
    obtain ⟨n, hn⟩ : ∃ n : Nat, d.exponent = -n := ⟨(-d.exponent).toNat, by omega⟩
    have hten : (10 : ℚ) ^ n = 5 ^ n * 2 ^ n := by
      rw [← mul_pow]
      norm_num
    show ((d.mantissa * 5 ^ (-d.exponent).toNat : Nat) : ℚ) * 10 ^ d.exponent = _
    rw [hn, Int.neg_neg, Int.toNat_natCast, zpow_neg, zpow_neg, zpow_natCast, zpow_natCast, hten]
    push_cast
    field_simp

end ZeroCurve.Scientific

namespace ZeroCurve.Double

variable {v : Float} {d : Dyadic} (hparts : Dyadic.ofFloat? v = some d)
include hparts

theorem isCanonical_of_parts : IsCanonical d.mantissa d.exponent := by
  obtain ⟨negative, hv⟩ := exists_ofFloat?_eq (isFinite_of_parts hparts)
  rw [hparts, Option.some_inj] at hv
  rw [hv]
  exact isCanonical_mantissa (isFinite_of_parts hparts)

variable (hnegative : d.negative = false)
include hnegative

theorem value_eq_of_parts : value v = d.mantissa * 2 ^ d.exponent := by
  obtain ⟨negative, m, e⟩ := d
  cases hnegative
  exact value_of_parts hparts

variable (hd : 0 < d.mantissa)
include hd

theorem value_pos_of_parts : 0 < value v := by
  rw [value_eq_of_parts hparts hnegative]
  positivity

/-- The shortest digits of a positive double are rounded to it again. -/
theorem isNearest_shortest : IsNearest (Scientific.shortest d).value v := by
  have hvalue := value_eq_of_parts hparts hnegative
  have hpos := value_pos_of_parts hparts hnegative hd
  have hcanonical := isCanonical_of_parts hparts
  have hrounded : ∀ s : Scientific, (∃ m e, IsRounded s.value m e ∧
      (m * 2 ^ e : ℚ) = d.mantissa * 2 ^ d.exponent) → IsNearest s.value v := by
    rintro s ⟨m, e, hs, hsame⟩
    have hnonneg : 0 ≤ s.value := by
      unfold Scientific.value
      positivity
    exact hs.isNearest hnonneg (isFinite_of_parts hparts) hpos (hsame.trans hvalue.symm)
  unfold Scientific.shortest
  dsimp only
  rw [Scientific.value_trimZeros]
  cases hfound : (List.range 17).findSome? fun (n : Nat) =>
      Scientific.nearest? d (Scientific.leadingPlace d.fraction.1 d.fraction.2 - n) with
  | none =>
    refine hrounded _ ⟨d.mantissa, d.exponent, ?_, rfl⟩
    rw [Option.getD_none, Scientific.value_ofDyadic]
    exact hcanonical.isRounded
  | some s =>
    obtain ⟨n, -, hn⟩ := List.exists_of_findSome?_eq_some hfound
    exact hrounded s (Scientific.exists_isRounded_of_readsBackAs hd hcanonical
      (Scientific.readsBackAs_of_nearest? hn))

theorem value_shortest_pos : 0 < (Scientific.shortest d).value := by
  have hpos := value_pos_of_parts hparts hnegative hd
  by_contra hnot
  have hle := (isNearest_shortest hparts hnegative hd).value_le (isFinite_of_parts hparts)
    isRepresentable_zero (not_lt.1 hnot)
  exact absurd hpos (not_lt.2 hle)

end ZeroCurve.Double

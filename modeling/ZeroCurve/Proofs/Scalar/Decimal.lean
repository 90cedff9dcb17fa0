import ZeroCurve.Numeral.Scientific
import ZeroCurve.Proofs.Scalar.Order

/-!
# Decimals, rounded

Digits times a power of ten are made the double nearest to them, however many digits there are and
however large or small the power is (`isNearest_ofScientific`), and a number is rounded to one double
only (`IsNearest.eq`). Decimals that round to the same double are therefore read alike.
-/

namespace ZeroCurve

/-- The number that digits and a power of ten write. -/
def Scientific.value (s : Scientific) : ℚ := s.digits * 10 ^ s.exponent

theorem Dyadic.value_eq_fraction {d : Dyadic} (h : d.negative = false) :
    d.value = d.fraction.1 / d.fraction.2 := by
  obtain ⟨negative, m, e⟩ := d
  cases h
  show (m : ℚ) * 2 ^ e = (m * 2 ^ e.toNat : Nat) / (2 ^ (-e).toNat : Nat)
  push_cast
  rw [mul_div_assoc, ← zpow_natCast, ← zpow_natCast, ← zpow_sub₀ two_ne_zero]
  congr 2
  omega

namespace Double

open Float.Model
open Float.Model.UnpackedFloat

section

variable {x : ℚ} {m n : Nat} {e k : Int}

theorem IsRounded.exponent_le (h : IsRounded x m e) (h' : IsRounded x n k) : e ≤ k := by
  by_contra hlt
  have hfull : (2 ^ 52 * 2 ^ e : ℚ) ≤ x := h.full.resolve_left (by have := h'.least; omega)
  have hscale : (2 : ℚ) * 2 ^ k ≤ 2 ^ e := two_mul_zpow_le (Int.not_le.1 hlt)
  have hupper := h'.lt
  linarith

theorem IsRounded.mantissa_le (h : IsRounded x m e) (h' : IsRounded x n e) : m ≤ n := by
  have hunit : (0 : ℚ) < 2 ^ e := by positivity
  have hnear : (m : ℚ) - 1 / 2 ≤ n + 1 / 2 := le_of_mul_le_mul_right (h.ge.trans h'.le) hunit
  have hle : m ≤ n + 1 := by
    have : (m : ℚ) ≤ (n + 1 : Nat) := by
      push_cast
      linarith
    exact Nat.cast_le.1 this
  rcases Nat.lt_or_eq_of_le hle with hlt | rfl
  · exact Nat.lt_succ_iff.1 hlt
  · -- the number lies in the middle of two neighbours, which are not both even
    exfalso
    have hmiddle : (((n + 1 : Nat) : ℚ) - 1 / 2) = n + 1 / 2 := by
      push_cast
      ring
    have hge := h.ge
    rw [hmiddle] at hge
    have htie : x = (n + 1 / 2) * 2 ^ e := le_antisymm h'.le hge
    have heven : Even (n + 1) := h.even (.inr (by rw [hmiddle, htie]))
    have heven' : Even n := h'.even (.inl htie)
    exact Nat.not_even_iff_odd.2 heven'.add_one heven

/-- A number is rounded to one mantissa and one exponent only. -/
theorem IsRounded.eq_of (h : IsRounded x m e) (h' : IsRounded x n k) : m = n ∧ e = k := by
  obtain rfl : e = k := le_antisymm (h.exponent_le h') (h'.exponent_le h)
  exact ⟨Nat.le_antisymm (h.mantissa_le h') (h'.mantissa_le h), rfl⟩

theorem Rounds.eq_of {u w : UnpackedFloat} (hx : x ≠ 0) (hu : Rounds x u) (hw : Rounds x w) :
    u = w := by
  obtain ⟨s, m, e, hm, hs, rfl⟩ := hu
  obtain ⟨s', n, k, hn, hs', rfl⟩ := hw
  obtain ⟨rfl, rfl⟩ := hm.eq_of hn
  have hsign : signFactor s = signFactor s' :=
    mul_right_cancel₀ (abs_ne_zero.2 hx) (hs.symm.trans hs')
  cases s <;> cases s' <;> first | rfl | exact absurd hsign (by norm_num)

/-- A number that is not zero is rounded to one double only. -/
theorem IsNearest.eq {v w : Float} (hx : x ≠ 0) (hv : IsNearest x v) (hw : IsNearest x w) :
    v = w := by
  obtain ⟨u, hu, hvu⟩ := hv
  obtain ⟨u', hu', hwu⟩ := hw
  obtain rfl := Rounds.eq_of hx hu hu'
  exact eq_of_unpack_eq (by rw [hvu, hwu])

theorem IsCanonical.exponent_le (h : IsCanonical m e) (hle : (m * 2 ^ e : ℚ) ≤ largest) :
    e ≤ 971 := by
  have hlargest : IsCanonical (2 ^ 53 - 1) 971 := ⟨by decide, by decide, .inl (by decide)⟩
  have hle' : (m * 2 ^ e : ℚ) ≤ (2 ^ 53 - 1 : Nat) * 2 ^ (971 : Int) := by
    rw [Nat.cast_sub (by decide), Nat.cast_pow]
    exact hle
  rcases h.lex_of_le hlargest hle' with hlt | ⟨rfl, -⟩ <;> omega

/-- What is rounded to the number of a positive double is rounded to this double. -/
theorem IsRounded.isNearest {v : Float} (h : IsRounded x m e) (hx : 0 ≤ x)
    (hv : v.isFinite = true) (hpos : 0 < value v) (hvalue : m * 2 ^ e = value v) :
    IsNearest x v := by
  have hnumber : number (carry .positive m e) = value v := by
    rw [h.number_carry, signFactor_positive, one_mul, hvalue]
  have hfit : IsFit (carry .positive m e) := by
    rcases h.carry_cases .positive with ⟨-, hcarry⟩ | ⟨n, k, hn, hcanonical, hsame, hcarry⟩
    · rw [hcarry]
      trivial
    · rw [hcarry]
      refine ⟨hcanonical, hcanonical.exponent_le ?_⟩
      rw [hsame, hvalue]
      exact (le_abs_self _).trans (abs_value_le hv)
  have hrounds : Rounds x (carry .positive m e) :=
    h.rounds hx (by rw [signFactor_positive, one_mul]) rfl
  obtain ⟨hfinite, hw⟩ :=
    hfit.value_of_pack (v := Float.ofModel (Float.Model.pack (carry .positive m e))) rfl
  rw [hnumber] at hw
  have hsame := eq_of_value_eq hfinite hv (by rw [hw]; exact hpos.ne') hw
  exact ⟨_, hrounds, (congrArg Float.toModel hsame).symm⟩

/-- What is rounded from the bound on is packed to infinity. -/
theorem Rounds.pack_eq_infinity {u : UnpackedFloat} (h : Rounds x u) (hx : overflowBound ≤ x) :
    Float.Model.pack u = Float.Model.pack (.infinity .positive) := by
  have hpos : 0 < x := ((by positivity : (0 : ℚ) < 2 ^ 53).trans two_pow_lt_overflowBound).trans_le hx
  obtain ⟨s, m, e, hrounded, hsign, rfl⟩ := h
  rw [abs_of_pos hpos] at hrounded hsign
  have hfinite := (hrounded.isFinite_pack_iff s).not.2 (not_lt.2 hx)
  obtain rfl : s = .positive := by
    cases s with
    | positive => rfl
    | negative =>
      rw [signFactor_negative, neg_one_mul] at hsign
      linarith
  have hunpack : (Float.Model.pack (carry .positive m e)).unpack = .infinity .positive := by
    rcases hrounded.carry_cases .positive with ⟨-, hcarry⟩ | ⟨n, k, hn, hcanonical, -, hcarry⟩
    · rw [hcarry] at hfinite
      exact absurd (isFinite_pack_zero _) hfinite
    · rw [hcarry] at hfinite ⊢
      rw [isFinite_pack_iff hcanonical] at hfinite
      rw [unpack_pack_finite hcanonical, if_neg hfinite]
  have hfloat : Float.ofModel (Float.Model.pack (carry .positive m e)) =
      Float.ofModel (Float.Model.pack (.infinity .positive)) :=
    eq_of_unpack_eq (hunpack.trans (unpack_pack_infinity .positive).symm)
  exact congrArg Float.toModel hfloat

end

/-- Far below the least double everything is rounded to zero. -/
theorem rounds_zero_of_lt {x : ℚ} (h : 0 ≤ x) (hx : x ≤ 2 ^ (-1075 : Int)) :
    Rounds x (.zero .positive) := by
  have hhalf : (2 : ℚ) ^ (-1075 : Int) = 1 / 2 * 2 ^ (-1074 : Int) := by
    rw [show (-1074 : Int) = 1 + -1075 from rfl, zpow_one_add₀ two_ne_zero]
    ring
  have hunit : (0 : ℚ) < 2 ^ (-1074 : Int) := by positivity
  rw [hhalf] at hx
  have hrounded : IsRounded x 0 (-1074) := by
    constructor
    case le => simpa using hx
    case ge =>
      rw [Nat.cast_zero, zero_sub]
      linarith
    case even => exact fun _ => by decide
    case least => exact le_rfl
    case full => exact .inl rfl
    case lt => linarith
  exact hrounded.rounds (s := .positive) h (by rw [signFactor_positive, one_mul]) rfl

theorem two_pow_le_ten_pow (n : Nat) : (2 : ℚ) ^ n ≤ 10 ^ n :=
  pow_le_pow_left₀ (by norm_num) (by norm_num) n

theorem overflowBound_le_mul_ten_pow {m k : Nat} (hm : m ≠ 0) (hk : 1024 ≤ k) :
    overflowBound ≤ m * 10 ^ k := by
  have hone : (1 : ℚ) ≤ m := by exact_mod_cast Nat.one_le_iff_ne_zero.2 hm
  calc overflowBound ≤ 2 ^ 1024 := sub_le_self _ (by positivity)
    _ ≤ 2 ^ k := pow_le_pow_right₀ one_le_two hk
    _ ≤ 10 ^ k := two_pow_le_ten_pow k
    _ ≤ m * 10 ^ k := le_mul_of_one_le_left (by positivity) hone

theorem div_ten_pow_le {m k : Nat} (hk : 1076 + m.log2 ≤ k) :
    (m / 10 ^ k : ℚ) ≤ 2 ^ (-1075 : Int) := by
  have hm : (m : ℚ) ≤ 2 ^ (m.log2 + 1) := by exact_mod_cast Nat.lt_log2_self.le
  rw [zpow_neg, ← one_div, div_le_div_iff₀ (by positivity) (by positivity), one_mul]
  calc (m : ℚ) * 2 ^ (1075 : Int) ≤ 2 ^ (m.log2 + 1) * 2 ^ 1075 := by
        exact mul_le_mul_of_nonneg_right hm (by positivity)
    _ = 2 ^ (1076 + m.log2) := by rw [← pow_add]; congr 1; omega
    _ ≤ 2 ^ k := pow_le_pow_right₀ one_le_two hk
    _ ≤ 10 ^ k := two_pow_le_ten_pow k

theorem rounds_mul_ten_pow {m : Nat} (hm : m ≠ 0) (k : Nat) {hshift : 0 < m <<< 53}
    {hpow : 0 < 10 ^ k} :
    Rounds (m * 10 ^ k) (UnpackedFloat.mul Format.binary64 (.finite .positive (m <<< 53) (-53) hshift)
      (.finite .positive (10 ^ k) 0 hpow)) := by
  have hlog : 52 ≤ (m <<< 53).log2 := by
    rw [log2_shiftLeft hm]
    omega
  have hfits : 52 ≤ (m <<< 53 * 10 ^ k).log2 := by
    rw [Nat.le_log2 (Nat.mul_pos hshift hpow).ne']
    exact ((Nat.le_log2 hshift.ne').1 hlog).trans (Nat.le_mul_of_pos_right _ hpow)
  have hvalue : ((m <<< 53 : Nat) * 2 ^ (-53 : Int) * ((10 ^ k : Nat) * 2 ^ (0 : Int)) : ℚ) =
      m * 10 ^ k := by
    rw [Nat.shiftLeft_eq]
    push_cast
    field_simp
    norm_num
  obtain ⟨r, t, hrounded, hround⟩ := mul_eq_carry (e := -53) (k := 0) (.inl hfits)
  rw [hvalue] at hrounded
  refine hrounded.rounds (s := .positive) (by positivity) ?_ (hround .positive)
  rw [signFactor_positive, one_mul]

theorem rounds_div_ten_pow {m k : Nat} {hpos : 0 < m} {hpow : 0 < 10 ^ k} :
    Rounds (m / 10 ^ k) (UnpackedFloat.div Format.binary64 (.finite .positive m 0 hpos)
      (.finite .positive (10 ^ k) 0 hpow)) := by
  obtain ⟨r, t, hrounded, hround⟩ := divCore_eq_carry hpos 0 hpow 0
  rw [zpow_zero, mul_one, mul_one, Nat.cast_pow, Nat.cast_ofNat] at hrounded
  refine hrounded.rounds (s := .positive) (by positivity) ?_ (hround .positive)
  rw [signFactor_positive, one_mul]

theorem mul_ten_zpow_neg (x : ℚ) (k : Nat) : x * 10 ^ (-k : Int) = x / 10 ^ k := by
  rw [zpow_neg, zpow_natCast, div_eq_mul_inv]

/-- Digits times a power of ten, rounded; what is far out of range is not computed. -/
theorem exists_rounds_ofScientific (m : Nat) (e : Int) : ∃ u, Rounds (m * 10 ^ e) u ∧
    Float.Model.pack u = Float.Model.pack (UnpackedFloat.ofScientific Format.binary64 m e) := by
  have hlimit : (2 : Int) ^ Format.binary64.exponentBits = 2048 := rfl
  unfold UnpackedFloat.ofScientific
  rw [hlimit]
  split
  next hm =>
    rw [hm, Nat.cast_zero, zero_mul]
    exact ⟨_, rounds_zero _, rfl⟩
  next hm =>
    split
    next hlarge =>
      obtain ⟨k, rfl⟩ := Int.eq_ofNat_of_zero_le (by omega : 0 ≤ e)
      have hrounds := rounds_ofNat (m * 10 ^ k)
      push_cast at hrounds
      refine ⟨_, hrounds, hrounds.pack_eq_infinity ?_⟩
      exact overflowBound_le_mul_ten_pow hm (by omega)
    split
    next hsmall =>
      obtain ⟨k, rfl⟩ : ∃ k : Nat, e = -k := ⟨(-e).toNat, by omega⟩
      refine ⟨_, rounds_zero_of_lt (by positivity) ?_, rfl⟩
      rw [mul_ten_zpow_neg]
      exact div_ten_pow_le (by omega)
    split
    next hnonneg =>
      obtain ⟨k, rfl⟩ := Int.eq_ofNat_of_zero_le hnonneg
      rw [zpow_natCast]
      exact ⟨_, rounds_mul_ten_pow hm k, rfl⟩
    next hneg =>
      obtain ⟨k, rfl⟩ : ∃ k : Nat, e = -k := ⟨(-e).toNat, by omega⟩
      have hpow : (-(-(k : Int))).toNat = k := by omega
      simp only [hpow]
      rw [mul_ten_zpow_neg]
      exact ⟨_, rounds_div_ten_pow, rfl⟩

/-- The powers of ten that doubles have exactly. -/
theorem parts_powerOfTen : ∀ e : Fin 23,
    (Dyadic.ofFloat? Float.exactlyRepresentablePowersOfTen[e]).any (fun d =>
      !d.negative && d.fraction.1 == 10 ^ e.val * d.fraction.2) = true := by
  decide

theorem value_powerOfTen (e : Fin 23) :
    Float.exactlyRepresentablePowersOfTen[e].isFinite = true ∧
      value Float.exactlyRepresentablePowersOfTen[e] = 10 ^ e.val := by
  obtain ⟨d, hparts, hd⟩ := (Option.any_eq_true _ _).1 (parts_powerOfTen e)
  simp only [Bool.and_eq_true, Bool.not_eq_true', beq_iff_eq] at hd
  refine ⟨isFinite_of_parts hparts, ?_⟩
  have hden : (d.fraction.2 : ℚ) ≠ 0 := by
    show ((2 ^ (-d.exponent).toNat : Nat) : ℚ) ≠ 0
    positivity
  rw [value, hparts, Option.map_some, Option.getD_some, Dyadic.value_eq_fraction hd.1, hd.2]
  push_cast
  exact mul_div_cancel_right₀ _ hden

/-- The power of ten that an exponent and its sign stand for. -/
def signedExponent (negative : Bool) (e : Nat) : Int := if negative then -e else e

theorem signedExponent_true (e : Nat) : signedExponent true e = -e := rfl

theorem signedExponent_false (e : Nat) : signedExponent false e = e := rfl

theorem signedExponent_natAbs (e : Int) : signedExponent (decide (e < 0)) e.natAbs = e := by
  unfold signedExponent
  split
  next h =>
    rw [decide_eq_true_eq] at h
    omega
  next h =>
    rw [decide_eq_true_eq] at h
    omega

/-- Digits times a power of ten are made the nearest double. -/
theorem isNearest_ofScientific (m : Nat) (negative : Bool) (e : Nat) :
    IsNearest (m * 10 ^ signedExponent negative e) (Float.ofScientific m negative e) := by
  unfold Float.ofScientific
  split
  next hsmall =>
    obtain ⟨hm, he⟩ := hsmall
    have hnat : m.toUInt64.toNat = m := UInt64.toNat_ofNat_of_lt' (Nat.lt_trans hm (by decide))
    obtain ⟨hfinite, hvalue⟩ := value_toFloat (n := m.toUInt64) (by rwa [hnat])
    rw [hnat] at hvalue
    obtain ⟨hpower, hpowerValue⟩ := value_powerOfTen ⟨e, Nat.lt_succ_of_le he⟩
    cases negative with
    | true =>
      have hquotient := isNearest_div hfinite hpower (by rw [hpowerValue]; positivity)
      rw [hvalue, hpowerValue] at hquotient
      rw [signedExponent_true, mul_ten_zpow_neg]
      exact hquotient
    | false =>
      have hproduct := isNearest_mul hfinite hpower
      rw [hvalue, hpowerValue] at hproduct
      rw [signedExponent_false, zpow_natCast]
      exact hproduct
  next =>
    obtain ⟨u, hu, hpack⟩ := exists_rounds_ofScientific m (signedExponent negative e)
    refine ⟨u, hu, ?_⟩
    rw [hpack]
    cases negative with
    | true =>
      have hneg : Int.negOfNat e = -(e : Int) := Int.negOfNat_eq
      rw [signedExponent_true, ← hneg]
      rfl
    | false => rfl

theorem isNearest_toFloat_scientific (s : Scientific) : IsNearest s.value s.toFloat := by
  have h := isNearest_ofScientific s.digits (decide (s.exponent < 0)) s.exponent.natAbs
  rw [signedExponent_natAbs] at h
  exact h

theorem isNearest_ofDecimal (d : Decimal) :
    IsNearest (d.digits / 10 ^ d.places) (Scalar.ofDecimal d) := by
  have h := isNearest_ofScientific d.digits true d.places
  rw [signedExponent_true, mul_ten_zpow_neg] at h
  exact h

/-- Digits with some places behind the point are the same double as those digits with a negative
exponent. -/
theorem toFloat_neg_places (n k : Nat) :
    Scientific.toFloat ⟨n, -k⟩ = Scalar.ofDecimal ⟨n, k⟩ := by
  cases k with
  | succ k =>
    have hneg : (-((k + 1 : Nat) : Int) < 0) := by omega
    have habs : (-((k + 1 : Nat) : Int)).natAbs = k + 1 := by omega
    show Float.ofScientific n (decide _) (Int.natAbs _) = Float.ofScientific n true (k + 1)
    rw [decide_eq_true hneg, habs]
  | zero =>
    rcases Nat.eq_zero_or_pos n with rfl | hn
    · decide
    · have hne : (n : ℚ) ≠ 0 := by exact_mod_cast hn.ne'
      have hscientific := isNearest_toFloat_scientific ⟨n, -(0 : Nat)⟩
      have hdecimal := isNearest_ofDecimal ⟨n, 0⟩
      rw [Scientific.value, Int.ofNat_zero, neg_zero, zpow_zero, mul_one] at hscientific
      rw [pow_zero, div_one] at hdecimal
      exact hscientific.eq hne hdecimal

end Double

end ZeroCurve

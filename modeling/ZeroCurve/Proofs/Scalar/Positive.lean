import ZeroCurve.Proofs.Scalar.Rounding

/-!
# Doubles that stay above zero

Products and quotients of doubles can be too small for a double. Those of a positive double with a
factor from one on, and with a divisor below two, are not.
-/

namespace ZeroCurve.Double

open Float.Model
open Float.Model.UnpackedFloat

/-- Whether a number is above zero, infinity included. -/
def IsAboveZero : UnpackedFloat → Prop
  | .infinity s | .finite s _ _ _ => s = .positive
  | .zero _ | .notANumber => False

theorem IsAboveZero.cases {v : Float} (h : IsAboveZero v.toModel.unpack) :
    v.toModel.unpack = .infinity .positive ∨
      ∃ (m : Nat) (e : Int) (hm : 0 < m), (IsCanonical m e ∧ e ≤ 971) ∧
        v.toModel.unpack = .finite .positive m e hm := by
  cases hu : v.toModel.unpack with
  | notANumber | zero s =>
    rw [hu] at h
    exact h.elim
  | infinity s =>
    rw [hu] at h
    cases h
    exact .inl rfl
  | finite s m e hm =>
    rw [hu] at h
    cases h
    exact .inr ⟨m, e, hm, isCanonical_unpack hu, rfl⟩

theorem zero_lt_iff {v : Float} : Scalar.ofInt 0 < v ↔ IsAboveZero v.toModel.unpack := by
  have hzero : (Scalar.ofInt 0 : Float).toModel.unpack = .zero .positive := by rfl
  rw [lt_iff_unpack, hzero]
  cases v.toModel.unpack with
  | notANumber => simp [UnpackedFloat.lt, UnpackedFloat.compare, IsAboveZero]
  | infinity s => cases s <;> simp [UnpackedFloat.lt, UnpackedFloat.compare, IsAboveZero]
  | zero s => simp [UnpackedFloat.lt, UnpackedFloat.compare, IsAboveZero]
  | finite s m e hm => cases s <;> simp [UnpackedFloat.lt, UnpackedFloat.compare, IsAboveZero]

theorem isZero_iff {v : Float} : Scalar.isZero v = true ↔ ∃ s, v.toModel.unpack = .zero s := by
  show v.toModel.unpack.beq (zero.toModel.unpack) = true ↔ _
  have hzero : zero.toModel.unpack = .zero .positive := by rfl
  rw [hzero]
  cases v.toModel.unpack with
  | notANumber => simp [UnpackedFloat.beq, UnpackedFloat.compare]
  | infinity s => cases s <;> simp [UnpackedFloat.beq, UnpackedFloat.compare]
  | zero s => simp [UnpackedFloat.beq, UnpackedFloat.compare]
  | finite s m e hm => cases s <;> simp [UnpackedFloat.beq, UnpackedFloat.compare]

theorem isZero_of_isAboveZero {v : Float} (h : IsAboveZero v.toModel.unpack) :
    Scalar.isZero v = false := by
  rw [← Bool.not_eq_true, isZero_iff]
  rintro ⟨s, hs⟩
  rw [hs] at h
  exact h

theorem isZero_neg_of_isAboveZero {v : Float} (h : IsAboveZero v.toModel.unpack) :
    Scalar.isZero (-v) = false := by
  rw [← Bool.not_eq_true, isZero_iff]
  rintro ⟨s, hs⟩
  have hneg : (Float.Model.pack v.toModel.unpack.neg).unpack = .zero s := hs
  rcases h.cases with hu | ⟨m, e, hm, ⟨hcanonical, he⟩, hu⟩
  · rw [hu, UnpackedFloat.neg, unpack_pack_infinity] at hneg
    cases hneg
  · rw [hu, UnpackedFloat.neg, unpack_pack_finite hcanonical, if_pos he] at hneg
    cases hneg

theorem IsRounded.isAboveZero_pack {x : ℚ} {r : Nat} {t : Int} (h : IsRounded x r t)
    (hx : 2 ^ (-1075 : Int) < x) : IsAboveZero (Float.Model.pack (carry .positive r t)).unpack := by
  rcases h.carry_cases .positive with ⟨hzero, -⟩ | ⟨n, k, hn, hc, -, hcarry⟩
  · exact absurd hzero (Nat.ne_of_gt (h.pos_of_lt hx))
  · rw [hcarry, unpack_pack_finite hc]
    split <;> rfl

/-- Every positive double is at least the least one. -/
theorem IsCanonical.least_le {m : Nat} {e : Int} (h : IsCanonical m e) (hm : 0 < m) :
    (2 : ℚ) ^ (-1074 : Int) ≤ m * 2 ^ e := by
  have hscale : (2 : ℚ) ^ (-1074 : Int) ≤ 2 ^ e := zpow_le_zpow_right₀ one_le_two h.least
  have hone : (1 : ℚ) ≤ m := by exact_mod_cast hm
  exact hscale.trans (le_mul_of_one_le_left (by positivity) hone)

theorem half_least_lt : (2 : ℚ) ^ (-1075 : Int) < 2 ^ (-1074 : Int) :=
  zpow_lt_zpow_right₀ one_lt_two (by decide)

/-- A factor from one on keeps a double above zero. -/
theorem isAboveZero_mul {v : Float} {a : Nat} {b : Int} {ha : 0 < a}
    (hv : IsAboveZero v.toModel.unpack) (hfull : 2 ^ 52 ≤ a) (hone : (1 : ℚ) ≤ a * 2 ^ b) :
    IsAboveZero (Float.Model.pack (UnpackedFloat.mul Format.binary64 v.toModel.unpack
      (.finite .positive a b ha))).unpack := by
  rcases hv.cases with hu | ⟨n, e, hn, ⟨hcanonical, -⟩, hu⟩
  · rw [hu]
    show IsAboveZero (Float.Model.pack (.infinity .positive)).unpack
    rw [unpack_pack_infinity]
    rfl
  · have hlog : 52 ≤ (n * a).log2 := by
      rw [Nat.le_log2 (Nat.mul_pos hn ha).ne']
      exact hfull.trans (Nat.le_mul_of_pos_left a hn)
    obtain ⟨r, t, hrounded, hround⟩ := mul_eq_carry (e := e) (k := b) (.inl hlog)
    have hproduct : UnpackedFloat.mul Format.binary64 (.finite .positive n e hn)
        (.finite .positive a b ha) = carry .positive r t := hround .positive
    have hleast : (2 : ℚ) ^ (-1074 : Int) ≤ n * 2 ^ e * (a * 2 ^ b) :=
      (hcanonical.least_le hn).trans (le_mul_of_one_le_right (by positivity) hone)
    rw [hu, hproduct]
    exact hrounded.isAboveZero_pack (half_least_lt.trans_le hleast)

/-- A divisor below two keeps a double above zero. -/
theorem isAboveZero_div {v : Float} {a : Nat} {b : Int} {ha : 0 < a}
    (hv : IsAboveZero v.toModel.unpack) (htwo : (a * 2 ^ b : ℚ) < 2) :
    IsAboveZero (Float.Model.pack (UnpackedFloat.div Format.binary64 v.toModel.unpack
      (.finite .positive a b ha))).unpack := by
  rcases hv.cases with hu | ⟨n, e, hn, ⟨hcanonical, -⟩, hu⟩
  · rw [hu]
    show IsAboveZero (Float.Model.pack (.infinity .positive)).unpack
    rw [unpack_pack_infinity]
    rfl
  · obtain ⟨r, t, hrounded, hround⟩ := divCore_eq_carry hn e ha b
    have hquotient : UnpackedFloat.div Format.binary64 (.finite .positive n e hn)
        (.finite .positive a b ha) = carry .positive r t := hround .positive
    have hhalf : (2 : ℚ) ^ (-1075 : Int) < n * 2 ^ e / (a * 2 ^ b) := by
      rw [lt_div_iff₀ (by positivity)]
      calc (2 : ℚ) ^ (-1075 : Int) * (a * 2 ^ b) < 2 ^ (-1075 : Int) * 2 :=
            mul_lt_mul_of_pos_left htwo (by positivity)
        _ = 2 ^ (-1075 + 1 : Int) := (zpow_add_one₀ two_ne_zero _).symm
        _ ≤ n * 2 ^ e := hcanonical.least_le hn
    rw [hu, hquotient]
    exact hrounded.isAboveZero_pack hhalf

theorem unpacked_mul_comm (f : Format) (u w : UnpackedFloat) :
    UnpackedFloat.mul f u w = UnpackedFloat.mul f w u := by
  have hsign : ∀ s s' : Sign, s * s' = s' * s := by
    intro s s'
    cases s <;> cases s' <;> rfl
  cases u <;> cases w <;>
    simp [UnpackedFloat.mul, hsign, Nat.mul_comm, Int.add_comm]

end ZeroCurve.Double

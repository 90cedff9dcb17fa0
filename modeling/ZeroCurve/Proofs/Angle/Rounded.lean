import ZeroCurve.Angle
import ZeroCurve.Proofs.Scalar.Remainder

/-!
# Angles in doubles

Half a turn is the double nearest to `π`. The representative of a finite double is between minus half
a turn and half a turn, and rounding lets the open end in once: the next double above half a turn
leaves a negative remainder of half a unit of a turn, to which adding a turn gives the whole turn.
-/

namespace ZeroCurve.Angle

open Double

/-- The mantissa of half a turn. -/
def piMantissa : Nat := 7074237752028440

/-- The next double above half a turn. -/
def afterHalfTurn : Float := 3.1415926535897936

/-- A full turn, as a double. -/
def turn : Float := Scalar.ofInt 2 * halfTurn

/-- The difference of half a turn and the next double, and half the one of a full turn. -/
def turnUnit : ℚ := 2 ^ (-51 : Int)

theorem turnUnit_pos : 0 < turnUnit := zpow_pos two_pos _

theorem two_mul_turnUnit : 2 * turnUnit = 2 ^ (-50 : Int) :=
  (zpow_one_add₀ two_ne_zero (-51)).symm

theorem parts_halfTurn : Dyadic.ofFloat? halfTurn = some ⟨false, piMantissa, -51⟩ := by rfl

theorem parts_turn : Dyadic.ofFloat? turn = some ⟨false, piMantissa, -50⟩ := by rfl

theorem parts_afterHalfTurn :
    Dyadic.ofFloat? afterHalfTurn = some ⟨false, piMantissa + 1, -51⟩ := by rfl

theorem isFinite_halfTurn : halfTurn.isFinite = true := isFinite_of_parts parts_halfTurn

theorem isFinite_turn : turn.isFinite = true := isFinite_of_parts parts_turn

theorem isFinite_afterHalfTurn : afterHalfTurn.isFinite = true :=
  isFinite_of_parts parts_afterHalfTurn

theorem value_halfTurn : value halfTurn = piMantissa * turnUnit := value_of_parts parts_halfTurn

theorem value_turn : value turn = piMantissa * (2 * turnUnit) := by
  rw [two_mul_turnUnit]
  exact value_of_parts parts_turn

theorem value_afterHalfTurn : value afterHalfTurn = (piMantissa + 1) * turnUnit := by
  rw [value_of_parts parts_afterHalfTurn, Nat.cast_succ, turnUnit]

theorem isCanonical_piMantissa {n : Nat} (hn : n ≤ 2) {k : Int} (hk : -1074 ≤ k) :
    IsCanonical (piMantissa + n) k := by
  unfold piMantissa
  exact ⟨by omega, hk, .inl (by omega)⟩

theorem value_turn_eq : value turn = 2 * value halfTurn := by
  rw [value_turn, value_halfTurn, mul_left_comm]

theorem value_halfTurn_pos : 0 < value halfTurn := by
  rw [value_halfTurn, piMantissa]
  exact mul_pos (by norm_num) turnUnit_pos

theorem value_turn_pos : 0 < value turn := by
  rw [value_turn_eq]
  exact mul_pos two_pos value_halfTurn_pos

theorem value_halfTurn_lt : value halfTurn < 4 := by
  rw [value_halfTurn, piMantissa, turnUnit]
  norm_num

theorem isRepresentable_mul_turnUnit {n : Nat} (hn : n < 2 ^ 53) :
    IsRepresentable (n * turnUnit) :=
  ⟨n, -51, hn, by decide, abs_of_nonneg (mul_nonneg (Nat.cast_nonneg n) turnUnit_pos.le)⟩

theorem wrap_eq (y : Float) : wrap halfTurn y = halfTurn - floorMod (halfTurn - y) turn := rfl

section

variable {y : Float} (hy : y.isFinite = true)
include hy

/-- No finite double is so large that its distance from half a turn is rounded to infinity. -/
theorem isFinite_halfTurn_sub : (halfTurn - y).isFinite = true := by
  have hsize : |value halfTurn - value y| ≤ |value halfTurn| + |value y| := abs_sub _ _
  have hunit : (8 : ℚ) ≤ 2 ^ (971 : Int) := by
    have h : (2 : ℚ) ^ (3 : Int) ≤ 2 ^ (971 : Int) := zpow_le_zpow_right₀ one_le_two (by decide)
    norm_num at h
    exact h
  have hlargest := abs_value_le hy
  rw [abs_of_pos value_halfTurn_pos] at hsize
  rw [isFinite_sub_iff isFinite_halfTurn, and_iff_right hy, overflowBound_eq]
  rw [largest] at hlargest
  generalize (2 : ℚ) ^ (971 : Int) = unit at hlargest hunit ⊢
  linarith [value_halfTurn_lt]

theorem floorMod_turn_mem : (floorMod (halfTurn - y) turn).isFinite = true ∧
    0 ≤ value (floorMod (halfTurn - y) turn) ∧
    value (floorMod (halfTurn - y) turn) ≤ 2 * value halfTurn := by
  rw [← value_turn_eq]
  exact floorMod_mem (isFinite_halfTurn_sub hy) isFinite_turn value_turn_pos

theorem isNearest_wrap :
    IsNearest (value halfTurn - value (floorMod (halfTurn - y) turn)) (wrap halfTurn y) := by
  rw [wrap_eq]
  exact isNearest_sub isFinite_halfTurn (floorMod_turn_mem hy).1

theorem isFinite_wrap : (wrap halfTurn y).isFinite = true := by
  obtain ⟨-, hlow, hhigh⟩ := floorMod_turn_mem hy
  have hsize : |value halfTurn - value (floorMod (halfTurn - y) turn)| ≤ |value halfTurn| := by
    rw [abs_of_pos value_halfTurn_pos, abs_le]
    constructor <;> linarith
  exact (isNearest_wrap hy).isFinite_iff.2 (hsize.trans_lt (abs_value_lt isFinite_halfTurn))

theorem value_wrap_mem :
    -value halfTurn ≤ value (wrap halfTurn y) ∧ value (wrap halfTurn y) ≤ value halfTurn := by
  obtain ⟨-, hlow, hhigh⟩ := floorMod_turn_mem hy
  have hhalf := isRepresentable_value isFinite_halfTurn
  exact ⟨(isNearest_wrap hy).le_value (isFinite_wrap hy) hhalf.neg (by linarith),
    (isNearest_wrap hy).value_le (isFinite_wrap hy) hhalf (by linarith)⟩

/-- The representative is minus half a turn only if the remainder is a whole turn. -/
theorem value_floorMod_of_wrap (h : value (wrap halfTurn y) = -value halfTurn) :
    value (floorMod (halfTurn - y) turn) = piMantissa * (2 * turnUnit) := by
  obtain ⟨hfinite, -, hhigh⟩ := floorMod_turn_mem hy
  rw [← value_turn_eq, value_turn] at hhigh
  refine le_antisymm hhigh (not_lt.1 fun hlt => ?_)
  -- the next double below a turn leaves the second one above minus half a turn
  rw [two_mul_turnUnit] at hlt
  have hnext := value_le_of_lt hfinite (isCanonical_piMantissa (Nat.zero_le 2) (by decide))
    (by decide) hlt
  rw [Nat.add_zero, ← two_mul_turnUnit] at hnext
  have hrepresentable := isRepresentable_mul_turnUnit (n := piMantissa - 2) (by decide)
  have hcast : ((piMantissa - 2 : Nat) : ℚ) = piMantissa - 2 := Nat.cast_sub (by decide)
  rw [hcast] at hrepresentable
  have hexact : -((piMantissa - 2) * turnUnit) ≤
      value halfTurn - value (floorMod (halfTurn - y) turn) := by
    rw [value_halfTurn]
    linarith
  have hlow := (isNearest_wrap hy).le_value (isFinite_wrap hy) hrepresentable.neg hexact
  rw [h, value_halfTurn] at hlow
  linarith [turnUnit_pos]

/-- The remainder is a whole turn only if what a turn is added to is negative and at most half a unit
away from zero. -/
theorem truncMod_mem_of_floorMod
    (h : value (floorMod (halfTurn - y) turn) = piMantissa * (2 * turnUnit)) :
    -turnUnit ≤ Exact.truncMod (value (halfTurn - y)) (value turn) ∧
      Exact.truncMod (value (halfTurn - y)) (value turn) < 0 := by
  rw [← value_turn] at h
  have hless := Exact.abs_truncMod_lt (value (halfTurn - y)) value_turn_pos.ne'
  rw [abs_of_pos value_turn_pos, abs_lt] at hless
  rcases floorMod_cases (isFinite_halfTurn_sub hy) isFinite_turn value_turn_pos with
    ⟨-, hrest⟩ | ⟨-, -, hvalue⟩ | ⟨hrest, hsum⟩
  · rw [hrest, value_zero] at h
    exact absurd h value_turn_pos.ne
  · rw [hvalue] at h
    exact absurd h hless.2.ne
  · refine ⟨?_, hrest⟩
    rw [value_turn, two_mul_turnUnit] at h
    have hge := hsum.ge_of_value_eq (floorMod_turn_mem hy).1
      (isCanonical_piMantissa (Nat.zero_le 2) (by decide)) (by decide) h
    rw [Nat.add_zero, ← two_mul_turnUnit] at hge
    linarith [value_turn]

/-- Then the distance from half a turn is the remainder. -/
theorem value_halfTurn_sub_mem
    (hlow : -turnUnit ≤ Exact.truncMod (value (halfTurn - y)) (value turn))
    (hneg : Exact.truncMod (value (halfTurn - y)) (value turn) < 0) :
    -turnUnit ≤ value (halfTurn - y) ∧ value (halfTurn - y) < 0 := by
  rcases lt_or_ge |value (halfTurn - y)| |value turn| with hlt | hge
  · rw [Exact.truncMod_of_abs_lt hlt] at hlow hneg
    exact ⟨hlow, hneg⟩
  · -- a larger distance would be a whole number of units of a turn, and so would the remainder
    exfalso
    rw [abs_of_pos value_turn_pos, value_turn, two_mul_turnUnit] at hge
    obtain ⟨count, hcount⟩ := exists_value_eq_mul_of_le (isFinite_halfTurn_sub hy)
      (isCanonical_piMantissa (Nat.zero_le 2) (by decide)) hge
    have hdistance : value (halfTurn - y) < 0 := by
      by_contra hnonneg
      exact absurd hneg (not_lt.2 (Exact.truncMod_nonneg (not_lt.1 hnonneg) value_turn_pos))
    have hunits : value (halfTurn - y) = -(count * (2 * turnUnit)) := by
      rw [two_mul_turnUnit, ← hcount, abs_of_neg hdistance, neg_neg]
    have hunit : 2 * turnUnit ≠ 0 := (mul_pos two_pos turnUnit_pos).ne'
    rw [hunits, value_turn, Exact.truncMod_neg_left, Exact.truncMod_natCast_mul _ _ hunit] at hlow hneg
    rcases Nat.eq_zero_or_pos (count % piMantissa) with hzero | hcountPos
    · rw [hzero, Nat.cast_zero, zero_mul, neg_zero] at hneg
      exact lt_irrefl _ hneg
    · have hone : (1 : ℚ) ≤ (count % piMantissa : Nat) := by exact_mod_cast hcountPos
      have hlarge := le_mul_of_one_le_left (mul_pos two_pos turnUnit_pos).le hone
      linarith [turnUnit_pos]

/-- The only double for which rounding lets the open end in. -/
theorem eq_afterHalfTurn (hlow : -turnUnit ≤ value (halfTurn - y))
    (hneg : value (halfTurn - y) < 0) : y = afterHalfTurn := by
  have hnearest := isNearest_sub isFinite_halfTurn hy
  have hfinite := isFinite_halfTurn_sub hy
  have habove : value halfTurn < value y := by
    by_contra hle
    exact absurd (hnearest.le_value hfinite isRepresentable_zero (by linarith)) (not_le.2 hneg)
  have hbelow : value y < (piMantissa + 2 : Nat) * 2 ^ (-51 : Int) := by
    by_contra hge
    have hnext : (piMantissa + 2 : Nat) * turnUnit ≤ value y := not_lt.1 hge
    rw [Nat.cast_add] at hnext
    have hfar : value halfTurn - value y ≤ -((2 : Nat) * turnUnit) := by
      rw [value_halfTurn]
      linarith
    have htwo := isRepresentable_mul_turnUnit (n := 2) (by decide)
    have hvalue := hnearest.value_le hfinite htwo.neg hfar
    rw [Nat.cast_ofNat] at hvalue
    linarith [turnUnit_pos]
  have hupper : value y ≤ (piMantissa + 1) * turnUnit := by
    have hle := value_le_of_lt hy (isCanonical_piMantissa le_rfl (by decide)) (by decide) hbelow
    rw [Nat.cast_add, Nat.cast_ofNat] at hle
    exact hle.trans_eq (by rw [turnUnit]; ring)
  have hlower : (piMantissa + 1) * turnUnit ≤ value y := by
    by_contra hlt
    have hbetween : value y < (piMantissa + 1 : Nat) * 2 ^ (-51 : Int) := by
      rw [Nat.cast_succ]
      exact not_le.1 hlt
    have hle := value_le_of_lt hy (isCanonical_piMantissa one_le_two (by decide)) (by decide)
      hbetween
    rw [Nat.cast_add_one, add_sub_cancel_right] at hle
    exact absurd (hle.trans_eq value_halfTurn.symm) (not_le.2 habove)
  have hvalue : value y = value afterHalfTurn :=
    (le_antisymm hupper hlower).trans value_afterHalfTurn.symm
  exact eq_of_value_eq hy isFinite_afterHalfTurn (value_halfTurn_pos.trans habove).ne' hvalue

end

/-- The next double above half a turn has minus half a turn as its representative. -/
theorem wrap_afterHalfTurn : wrap halfTurn afterHalfTurn = -halfTurn :=
  Float.toBits_inj.1 (by decide +kernel)

/-- In doubles every finite angle has a finite representative between minus half a turn and half a
turn, and it lies above minus half a turn for all but the next double above half a turn. -/
theorem neg_halfTurn_lt_wrap_iff {y : Float} (hy : y.isFinite = true) :
    (wrap halfTurn y).isFinite = true ∧ -halfTurn ≤ wrap halfTurn y ∧
      wrap halfTurn y ≤ halfTurn ∧ (-halfTurn < wrap halfTurn y ↔ y ≠ afterHalfTurn) := by
  have hfinite := isFinite_wrap hy
  have hopposite := isFinite_opposite isFinite_halfTurn
  obtain ⟨hlow, hhigh⟩ := value_wrap_mem hy
  rw [le_iff_value_le hopposite hfinite, le_iff_value_le hfinite isFinite_halfTurn,
    lt_iff_value_lt hopposite hfinite, value_neg isFinite_halfTurn]
  refine ⟨hfinite, hlow, hhigh, ?_, ?_⟩
  · rintro hlt rfl
    rw [wrap_afterHalfTurn, value_neg isFinite_halfTurn] at hlt
    exact lt_irrefl _ hlt
  · intro hne
    refine lt_of_le_of_ne hlow fun heq => hne ?_
    obtain ⟨hsmall, hneg⟩ := truncMod_mem_of_floorMod hy (value_floorMod_of_wrap hy heq.symm)
    obtain ⟨hnear, habove⟩ := value_halfTurn_sub_mem hy hsmall hneg
    exact eq_afterHalfTurn hy hnear habove

/-- Four lies above half a turn, and its representative inside the turn. -/
theorem neg_halfTurn_lt_wrap_four :
    (4 : Float).isFinite = true ∧ -halfTurn < wrap halfTurn 4 ∧ wrap halfTurn 4 ≤ halfTurn := by
  have hfinite : (4 : Float).isFinite = true := by rfl
  have hne : (4 : Float) ≠ afterHalfTurn := by
    intro h
    exact absurd (congrArg Float.toBits h) (by decide)
  obtain ⟨-, -, hhigh, hlow⟩ := neg_halfTurn_lt_wrap_iff hfinite
  exact ⟨hfinite, hlow.2 hne, hhigh⟩

/-- The open end is not kept by every finite double. -/
theorem not_neg_halfTurn_lt_wrap : ¬ ∀ y : Float, y.isFinite = true →
    -halfTurn < wrap halfTurn y ∧ wrap halfTurn y ≤ halfTurn := by
  intro h
  have hlow := (h afterHalfTurn isFinite_afterHalfTurn).1
  rw [wrap_afterHalfTurn] at hlow
  exact absurd hlow (by decide)

end ZeroCurve.Angle

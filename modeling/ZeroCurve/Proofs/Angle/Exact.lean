import Mathlib
import ZeroCurve.Proofs.Newton.Defined
import ZeroCurve.Proofs.Scalar.Exact

/-!
# Angles in exact arithmetic

Without rounding, the representative of an angle is the only one that lies above minus half a turn and
not above half a turn, whatever number half a turn is, so angles have the same representative just if
they are a whole number of turns apart. A search among angles finds representatives only.
-/

namespace ZeroCurve.Angle

variable {K : Type} [Field K] [LinearOrder K] [IsStrictOrderedRing K] [FloorRing K]
  {halfTurn y z : K}

theorem wrap_eq_toIocMod (h : 0 < 2 * halfTurn) (y : K) :
    wrap halfTurn y = toIocMod h (-halfTurn) y := by
  have hround : wrap halfTurn y =
      halfTurn - (halfTurn - y - 2 * halfTurn * ⌊(halfTurn - y) / (2 * halfTurn)⌋) := by
    show halfTurn - (halfTurn - y - ((2 : Int) : K) * halfTurn *
      ⌊(halfTurn - y) / (((2 : Int) : K) * halfTurn)⌋) = _
    rw [Int.cast_ofNat]
  have hend : -halfTurn + 2 * halfTurn - y = halfTurn - y := by ring
  rw [hround, toIocMod, toIocDiv_eq_neg_floor, hend, zsmul_eq_mul, Int.cast_neg]
  ring

/-- The representative is the only number in the turn that is a whole number of turns away. -/
theorem wrap_eq_iff (h : 0 < halfTurn) :
    wrap halfTurn y = z ↔
      (-halfTurn < z ∧ z ≤ halfTurn) ∧ ∃ n : Int, y - z = n * (2 * halfTurn) := by
  have hturn : 0 < 2 * halfTurn := by linarith
  have hend : -halfTurn + 2 * halfTurn = halfTurn := by ring
  rw [wrap_eq_toIocMod hturn, toIocMod_eq_iff, hend, Set.mem_Ioc]
  simp only [zsmul_eq_mul, sub_eq_iff_eq_add']

theorem wrap_mem (h : 0 < halfTurn) (y : K) :
    -halfTurn < wrap halfTurn y ∧ wrap halfTurn y ≤ halfTurn :=
  ((wrap_eq_iff h).1 rfl).1

theorem exists_sub_wrap (h : 0 < halfTurn) (y : K) :
    ∃ n : Int, y - wrap halfTurn y = n * (2 * halfTurn) :=
  ((wrap_eq_iff h).1 rfl).2

theorem wrap_eq_self_iff (h : 0 < halfTurn) :
    wrap halfTurn y = y ↔ -halfTurn < y ∧ y ≤ halfTurn := by
  rw [wrap_eq_iff h, and_iff_left]
  exact ⟨0, by simp⟩

theorem wrap_eq_wrap_iff (h : 0 < halfTurn) :
    wrap halfTurn y = wrap halfTurn z ↔ ∃ n : Int, y - z = n * (2 * halfTurn) := by
  obtain ⟨k, hk⟩ := exists_sub_wrap h z
  rw [wrap_eq_iff h, and_iff_right (wrap_mem h z)]
  -- the turns between `z` and its representative come in addition
  constructor
  · rintro ⟨n, hn⟩
    refine ⟨n - k, ?_⟩
    rw [Int.cast_sub, sub_mul, ← hn, ← hk]
    ring
  · rintro ⟨n, hn⟩
    refine ⟨n + k, ?_⟩
    rw [Int.cast_add, add_mul, ← hn, ← hk]
    ring

/-- Wrapping gives every angle its representative: it lies in the turn, is a whole number of turns
away, is the number itself if that lies in the turn, and tells apart just the numbers that are not a
whole number of turns apart. So whatever a search among angles finds lies in the turn. -/
theorem wrap_canonical (h : 0 < halfTurn) :
    (∀ y, -halfTurn < wrap halfTurn y ∧ wrap halfTurn y ≤ halfTurn) ∧
    (∀ y, ∃ n : Int, y - wrap halfTurn y = n * (2 * halfTurn)) ∧
    (∀ y, wrap halfTurn y = y ↔ -halfTurn < y ∧ y ≤ halfTurn) ∧
    (∀ y z, wrap halfTurn y = wrap halfTurn z ↔ ∃ n : Int, y - z = n * (2 * halfTurn)) ∧
    ∀ (n : Newton K) (f : K → K) (start y : K), n.halfTurn = some halfTurn →
      n.solve f start = .ok (some y) → -halfTurn < y ∧ y ≤ halfTurn := by
  refine ⟨wrap_mem h, exists_sub_wrap h, fun y => wrap_eq_self_iff h,
    fun y z => wrap_eq_wrap_iff h, ?_⟩
  intro n f start y hturn hy
  obtain ⟨z, rfl⟩ := Newton.exists_represent_of_solve hy
  rw [Newton.represent, hturn]
  exact wrap_mem h z

/-- Full steps for angles of which six make a turn. -/
def sixToTheTurn : Newton ℚ := ⟨some 3, 10, 1, 1, 1⟩

/-- Three half turns are one, and where six make a turn the root ten is found two before zero. -/
theorem wrap_canonical_three_half_turns :
    (0 < Real.pi ∧ wrap Real.pi (3 * Real.pi) = Real.pi) ∧
    (0 : ℚ) < 3 ∧ sixToTheTurn.halfTurn = some 3 ∧
    sixToTheTurn.solve (fun y => y - 10) 0 = .ok (some (-2)) ∧ (-3 : ℚ) < -2 ∧ (-2 : ℚ) ≤ 3 := by
  have hpi := wrap_canonical Real.pi_pos
  have hsolve : sixToTheTurn.solve (fun y => y - 10) 0 = .ok (some (-2)) := by decide +kernel
  have hthree : (0 : ℚ) < 3 := by norm_num
  refine ⟨⟨Real.pi_pos, ?_⟩, hthree, rfl, hsolve, ?_⟩
  · have hsame : wrap Real.pi (3 * Real.pi) = wrap Real.pi Real.pi :=
      (hpi.2.2.2.1 _ _).2 ⟨1, by push_cast; ring⟩
    rw [hsame, hpi.2.2.1]
    exact ⟨neg_lt_self Real.pi_pos, le_rfl⟩
  · exact (wrap_canonical hthree).2.2.2.2 sixToTheTurn _ 0 (-2) rfl hsolve

end ZeroCurve.Angle

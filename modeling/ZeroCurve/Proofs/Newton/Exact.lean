import ZeroCurve.Proofs.Newton.Defined
import ZeroCurve.Proofs.Scalar.Exact

/-!
# Newton steps in exact arithmetic

Without rounding, no step divides by zero, and the size of a step is the size of the value over the
slope, or over the tolerance where the slope is smaller. So a search that has stopped certifies a
bound on the value at the iterate before the one it has found.
-/

namespace ZeroCurve.Newton

section Steepen

variable {tolerance slope : ℚ}

/-- A slope is replaced if it is smaller than the tolerance. Zero counts as a slope upward. -/
theorem steepen_eq :
    steepen tolerance slope =
      if |slope| < tolerance then if slope < 0 then -tolerance else tolerance else slope := by
  rw [steepen, Exact.magnitude_eq_abs, Exact.ofInt_zero]

theorem steepen_of_le (h : tolerance ≤ |slope|) : steepen tolerance slope = slope := by
  rw [steepen_eq, if_neg (not_lt.2 h)]

theorem abs_steepen (h : 0 < tolerance) : |steepen tolerance slope| = max |slope| tolerance := by
  rw [steepen_eq]
  split_ifs with hsmall hneg
  · rw [abs_neg, abs_of_pos h, max_eq_right hsmall.le]
  · rw [abs_of_pos h, max_eq_right hsmall.le]
  · rw [max_eq_left (not_lt.1 hsmall)]

theorem steepen_ne_zero (h : 0 < tolerance) : steepen tolerance slope ≠ 0 := by
  rw [← abs_pos, abs_steepen h]
  exact lt_max_of_lt_right h

end Steepen

variable {n : Newton ℚ} {f : ℚ → ℚ} {start y next : ℚ}

theorem isMoving_iff : n.isMoving y next = true ↔ n.tolerance < |next - y| := by
  rw [isMoving, Exact.magnitude_eq_abs, decide_eq_true_iff]

theorem isMoving_eq_false_iff : n.isMoving y next = false ↔ |next - y| ≤ n.tolerance := by
  rw [← Bool.not_eq_true, isMoving_iff, not_lt]

/-- In exact arithmetic every step is made. -/
theorem advance_exact (htolerance : 0 < n.tolerance) (hstep : n.step ≠ 0) (f : ℚ → ℚ) (y : ℚ) :
    n.advance f y =
      .ok (n.represent (y - n.damping * (f y / steepen n.tolerance (n.slope f y)))) :=
  advance_eq_ok (decide_eq_false hstep) (decide_eq_false (steepen_ne_zero htolerance))

theorem represent_of_none (h : n.halfTurn = none) (y : ℚ) : n.represent y = y := by
  rw [represent, h]

/-- What a step moves by bounds the value it started from. -/
theorem abs_value_eq (hturn : n.halfTurn = none) (htolerance : 0 < n.tolerance)
    (hstep : n.step ≠ 0) (hdamping : 0 < n.damping) (h : n.advance f y = .ok next) :
    |f y| = |next - y| / n.damping * max |n.slope f y| n.tolerance := by
  have hnext : y - n.damping * (f y / steepen n.tolerance (n.slope f y)) = next := by
    rw [advance_exact htolerance hstep, represent_of_none hturn] at h
    exact Except.ok.inj h
  have hslope : steepen n.tolerance (n.slope f y) ≠ 0 := steepen_ne_zero htolerance
  have hvalue : f y = (y - next) / n.damping * steepen n.tolerance (n.slope f y) := by
    rw [← hnext]
    field_simp
    ring
  calc |f y| = |y - next| / n.damping * |steepen n.tolerance (n.slope f y)| := by
        rw [hvalue, abs_mul, abs_div, abs_of_pos hdamping]
    _ = |next - y| / n.damping * max |n.slope f y| n.tolerance := by
        rw [abs_sub_comm, abs_steepen htolerance]

/-- What a search finds is at most the tolerance away from an iterate at which the value is small:
within the tolerance over the damping, times the slope there or the tolerance, whichever is
greater. -/
theorem abs_value_le_of_solve (hturn : n.halfTurn = none) (htolerance : 0 < n.tolerance)
    (hstep : n.step ≠ 0) (hdamping : 0 < n.damping) (h : n.solve f start = .ok (some y)) :
    ∃ k before, IsLeast {k | n.IsSettled f start k} (k + 1) ∧
      n.iterate f start k = .ok before ∧ n.iterate f start (k + 1) = .ok y ∧
      |y - before| ≤ n.tolerance ∧
      |f before| ≤ n.tolerance / n.damping *
        max |(f (before + n.step) - f before) / n.step| n.tolerance := by
  obtain ⟨k, hleast, -, hy⟩ := solve_eq_some_iff.1 h
  obtain ⟨j, rfl, before, next, hbefore, hnext, hmoving⟩ := hleast.1
  have heq : y = next := Except.ok.inj (hy.symm.trans ((iterate_succ hbefore).trans hnext))
  subst heq
  have hmove : |y - before| ≤ n.tolerance := isMoving_eq_false_iff.1 hmoving
  refine ⟨j, before, hleast, hbefore, hy, hmove, ?_⟩
  rw [abs_value_eq hturn htolerance hstep hdamping hnext]
  exact mul_le_mul_of_nonneg_right (div_le_div_of_nonneg_right hmove hdamping.le)
    (le_max_of_le_right htolerance.le)

/-- Coarse steps toward a root of two. -/
def coarse : Newton ℚ := ⟨none, 100, 1 / 2, 1, 1⟩

/-- From zero the coarse search stops two steps on, at `8 / 5`. -/
theorem abs_value_le_of_solve_coarse :
    coarse.halfTurn = none ∧ 0 < coarse.tolerance ∧ coarse.step ≠ 0 ∧ 0 < coarse.damping ∧
    coarse.solve (fun y => y * y - 2) 0 = .ok (some (8 / 5)) ∧
    ∃ k before, coarse.iterate (fun y => y * y - 2) 0 k = .ok before ∧
      |8 / 5 - before| ≤ 1 / 2 ∧
      |before * before - 2| ≤ 1 / 2 / 1 *
        max |((before + 1) * (before + 1) - 2 - (before * before - 2)) / 1| (1 / 2) := by
  have hturn : coarse.halfTurn = none := rfl
  have htolerance : 0 < coarse.tolerance := by norm_num [coarse]
  have hstep : coarse.step ≠ 0 := by norm_num [coarse]
  have hdamping : 0 < coarse.damping := by norm_num [coarse]
  have hsolve : coarse.solve (fun y => y * y - 2) 0 = .ok (some (8 / 5)) := by decide +kernel
  obtain ⟨k, before, -, hbefore, -, hmove, hvalue⟩ :=
    abs_value_le_of_solve hturn htolerance hstep hdamping hsolve
  exact ⟨hturn, htolerance, hstep, hdamping, hsolve, k, before, hbefore, hmove, hvalue⟩

end ZeroCurve.Newton

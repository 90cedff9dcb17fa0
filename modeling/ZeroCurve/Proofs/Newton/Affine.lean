import ZeroCurve.Proofs.Newton.Exact

/-!
# Linear functions

In exact arithmetic the difference quotient of a linear function is its slope. If that is not
replaced, every step takes the same part of the distance to the root away, and the search stops
where the geometric sequence of its moves has come down to the tolerance.
-/

namespace ZeroCurve.Newton

variable {n : Newton ℚ} {a root start y : ℚ}

/-- The size of the step that leads to the iterate of this number, for a linear function. -/
def affineMove (n : Newton ℚ) (root start : ℚ) (k : Nat) : ℚ :=
  n.damping * |1 - n.damping| ^ (k - 1) * |start - root|

section Steps

variable (hturn : n.halfTurn = none) (htolerance : 0 < n.tolerance) (hstep : n.step ≠ 0)
  (hsteep : n.tolerance ≤ |a|)
include hturn htolerance hstep hsteep

/-- A step takes the part `damping` of the distance to the root away. -/
theorem advance_affine (y : ℚ) :
    n.advance (fun y => a * (y - root)) y = .ok (root + (1 - n.damping) * (y - root)) := by
  have ha : a ≠ 0 := abs_pos.1 (htolerance.trans_le hsteep)
  have hslope : n.slope (fun y => a * (y - root)) y = a := by
    rw [slope]
    field_simp
    ring
  have hnext : y - n.damping * (a * (y - root) / a) = root + (1 - n.damping) * (y - root) := by
    rw [mul_div_cancel_left₀ _ ha]
    ring
  rw [advance_exact htolerance hstep, represent_of_none hturn, hslope, steepen_of_le hsteep, hnext]

theorem iterate_affine (k : Nat) :
    n.iterate (fun y => a * (y - root)) start k =
      .ok (root + (1 - n.damping) ^ k * (start - root)) := by
  induction k with
  | zero =>
    rw [iterate]
    exact congrArg Except.ok (by ring)
  | succ k ih =>
    rw [iterate_succ ih, advance_affine hturn htolerance hstep hsteep]
    exact congrArg Except.ok (by ring)

theorem isSettled_affine_iff (hdamping : 0 < n.damping) (k : Nat) :
    n.IsSettled (fun y => a * (y - root)) start k ↔
      1 ≤ k ∧ n.affineMove root start k ≤ n.tolerance := by
  have hiterate : ∀ k, n.iterate (fun y => a * (y - root)) start k =
      .ok (root + (1 - n.damping) ^ k * (start - root)) :=
    iterate_affine hturn htolerance hstep hsteep
  have hmove : ∀ j, |root + (1 - n.damping) ^ (j + 1) * (start - root) -
      (root + (1 - n.damping) ^ j * (start - root))| = n.affineMove root start (j + 1) := by
    intro j
    have hdifference : root + (1 - n.damping) ^ (j + 1) * (start - root) -
        (root + (1 - n.damping) ^ j * (start - root)) =
          -(n.damping * (1 - n.damping) ^ j * (start - root)) := by ring
    rw [hdifference, abs_neg, abs_mul, abs_mul, abs_pow, abs_of_pos hdamping, affineMove,
      Nat.add_sub_cancel]
  constructor
  · rintro ⟨j, rfl, y, next, hy, hnext, hsmall⟩
    have hnext' := (iterate_succ hy).trans hnext
    rw [hiterate] at hy hnext'
    cases hy
    cases hnext'
    refine ⟨Nat.le_add_left 1 j, ?_⟩
    rw [← hmove]
    exact isMoving_eq_false_iff.1 hsmall
  · rintro ⟨hk, hsmall⟩
    obtain ⟨j, rfl⟩ := Nat.exists_eq_add_of_le' hk
    refine ⟨j, rfl, _, _, hiterate j, (iterate_succ (hiterate j)).symm.trans (hiterate (j + 1)), ?_⟩
    rw [isMoving_eq_false_iff, hmove]
    exact hsmall

theorem solve_affine_of_isLeast (hdamping : 0 < n.damping) {k : Nat}
    (hleast : IsLeast {k : Nat | 1 ≤ k ∧ n.affineMove root start k ≤ n.tolerance} k) :
    n.solve (fun y => a * (y - root)) start =
      .ok (if (k : Int) < n.maxPasses then some (root + (1 - n.damping) ^ k * (start - root))
        else none) := by
  have hiterate : ∀ k, n.iterate (fun y => a * (y - root)) start k =
      .ok (root + (1 - n.damping) ^ k * (start - root)) :=
    iterate_affine hturn htolerance hstep hsteep
  have hsettled : {k | n.IsSettled (fun y => a * (y - root)) start k} =
      {k : Nat | 1 ≤ k ∧ n.affineMove root start k ≤ n.tolerance} :=
    Set.ext (isSettled_affine_iff hturn htolerance hstep hsteep hdamping)
  split
  next hbefore => exact solve_eq_some_iff.2 ⟨k, hsettled ▸ hleast, hbefore, hiterate k⟩
  next hcap =>
    refine solve_eq_none_iff.2 ⟨fun j hj => ?_, _, hiterate _⟩
    have hle : k ≤ j := hleast.2 (hsettled ▸ hj)
    omega

end Steps

/-- The moves come down to the tolerance. -/
theorem exists_isLeast_affineMove (htolerance : 0 < n.tolerance) (hpos : 0 < n.damping)
    (hlt : n.damping < 2) (root start : ℚ) :
    ∃ k, IsLeast {k : Nat | 1 ≤ k ∧ n.affineMove root start k ≤ n.tolerance} k := by
  have hratio : |1 - n.damping| < 1 := abs_lt.2 ⟨by linarith, by linarith⟩
  have hscale : 0 < n.damping * |start - root| + 1 :=
    add_pos_of_nonneg_of_pos (mul_nonneg hpos.le (abs_nonneg _)) one_pos
  obtain ⟨k, hk⟩ := exists_pow_lt_of_lt_one (div_pos htolerance hscale) hratio
  have hsmall : n.affineMove root start (k + 1) ≤ n.tolerance := by
    have hpow : 0 ≤ |1 - n.damping| ^ k := pow_nonneg (abs_nonneg _) k
    calc n.affineMove root start (k + 1)
        = |1 - n.damping| ^ k * (n.damping * |start - root|) := by
          rw [affineMove, Nat.add_sub_cancel]
          ring
      _ ≤ |1 - n.damping| ^ k * (n.damping * |start - root| + 1) :=
          mul_le_mul_of_nonneg_left (le_add_of_nonneg_right zero_le_one) hpow
      _ ≤ n.tolerance := ((lt_div_iff₀ hscale).1 hk).le
  classical
  have hexists : ∃ k, 1 ≤ k ∧ n.affineMove root start k ≤ n.tolerance :=
    ⟨k + 1, Nat.le_add_left 1 k, hsmall⟩
  exact ⟨Nat.find hexists, Nat.find_spec hexists, fun m hm => Nat.find_min' hexists hm⟩

/-- After a move of at most the tolerance the root is near. -/
theorem abs_iterate_sub_root_le (hdamping : 0 < n.damping) {k : Nat} (hk : 1 ≤ k)
    (hmove : n.affineMove root start k ≤ n.tolerance) :
    |root + (1 - n.damping) ^ k * (start - root) - root| ≤
      n.tolerance * |1 - n.damping| / n.damping := by
  obtain ⟨j, rfl⟩ := Nat.exists_eq_add_of_le' hk
  rw [affineMove, Nat.add_sub_cancel] at hmove
  calc |root + (1 - n.damping) ^ (j + 1) * (start - root) - root|
      = |1 - n.damping| ^ (j + 1) * |start - root| := by
        rw [add_sub_cancel_left, abs_mul, abs_pow]
    _ = n.damping * |1 - n.damping| ^ j * |start - root| * |1 - n.damping| / n.damping := by
        field_simp
        ring
    _ ≤ n.tolerance * |1 - n.damping| / n.damping :=
        div_le_div_of_nonneg_right (mul_le_mul_of_nonneg_right hmove (abs_nonneg _)) hdamping.le

/-- On a linear function with a slope that is not replaced, every step multiplies the distance to the
root by `1 - damping`. The search finds the first iterate that a move of at most the tolerance leads
to, if that comes before the cap, and what it finds is off the root by at most the tolerance times
`|1 - damping| / damping`. -/
theorem solve_affine {b : ℚ} (hturn : n.halfTurn = none) (htolerance : 0 < n.tolerance)
    (hstep : n.step ≠ 0) (hsteep : n.tolerance ≤ |a|) (hpos : 0 < n.damping) (hlt : n.damping < 2)
    (start : ℚ) :
    (∀ k, n.iterate (fun y => a * y + b) start k =
      .ok (-b / a + (1 - n.damping) ^ k * (start - -b / a))) ∧
    (∃ k : Nat, IsLeast {k : Nat | 1 ≤ k ∧
        n.damping * |1 - n.damping| ^ (k - 1) * |start - -b / a| ≤ n.tolerance} k ∧
      n.solve (fun y => a * y + b) start =
        .ok (if (k : Int) < n.maxPasses then some (-b / a + (1 - n.damping) ^ k * (start - -b / a))
          else none)) ∧
    ∀ y, n.solve (fun y => a * y + b) start = .ok (some y) →
      |y - -b / a| ≤ n.tolerance * |1 - n.damping| / n.damping := by
  have ha : a ≠ 0 := abs_pos.1 (htolerance.trans_le hsteep)
  have hfactor : (fun y => a * y + b) = fun y => a * (y - -b / a) := by
    funext y
    field_simp
    ring
  obtain ⟨k, hleast⟩ := exists_isLeast_affineMove htolerance hpos hlt (-b / a) start
  have hsolve := solve_affine_of_isLeast hturn htolerance hstep hsteep hpos hleast
  rw [hfactor]
  refine ⟨iterate_affine hturn htolerance hstep hsteep, ⟨k, hleast, hsolve⟩, fun y hy => ?_⟩
  rw [hsolve] at hy
  split at hy
  · cases hy
    exact abs_iterate_sub_root_le hpos hleast.1.1 hleast.1.2
  · cases hy

/-- With the usual settings the root of `y - 3` is found from zero at the 35th iterate. -/
theorem solve_affine_standard :
    (standard none : Newton ℚ).halfTurn = none ∧ 0 < (standard none : Newton ℚ).tolerance ∧
    (standard none : Newton ℚ).step ≠ 0 ∧ (standard none : Newton ℚ).tolerance ≤ |1| ∧
    0 < (standard none : Newton ℚ).damping ∧ (standard none : Newton ℚ).damping < 2 ∧
    (standard none : Newton ℚ).solve (fun y => 1 * y + -3) 0 = .ok (some (3 - 3 / 2 ^ 35)) ∧
    |3 - 3 / 2 ^ 35 - (3 : ℚ)| ≤ 1 / 10 ^ 10 := by
  have htolerance : (standard none : Newton ℚ).tolerance = 1 / 10 ^ 10 := by decide +kernel
  have hdamping : (standard none : Newton ℚ).damping = 1 / 2 := by decide +kernel
  have hstep : (standard none : Newton ℚ).step ≠ 0 := by decide +kernel
  have hpositive : 0 < (standard none : Newton ℚ).tolerance := by norm_num [htolerance]
  have hsteep : (standard none : Newton ℚ).tolerance ≤ |1| := by norm_num [htolerance]
  have hpos : 0 < (standard none : Newton ℚ).damping := by norm_num [hdamping]
  have hlt : (standard none : Newton ℚ).damping < 2 := by norm_num [hdamping]
  have hsolve : (standard none : Newton ℚ).solve (fun y => 1 * y + -3) 0 =
      .ok (some (3 - 3 / 2 ^ 35)) := by decide +kernel
  have hnear := (solve_affine rfl hpositive hstep hsteep hpos hlt 0).2.2 _ hsolve
  refine ⟨rfl, hpositive, hstep, hsteep, hpos, hlt, hsolve, ?_⟩
  norm_num [htolerance, hdamping] at hnear ⊢

end ZeroCurve.Newton

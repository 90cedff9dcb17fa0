import ZeroCurve.Proofs.Newton.Defined
import ZeroCurve.Proofs.Scalar.Extended

/-!
# What a search divides by

In exact arithmetic with infinities and an undefined number, for a function with any of these values.
With a tolerance above zero, every slope is made at least as large as the tolerance, or it is
undefined, so no search divides by zero. With any other tolerance no slope is changed, and a search
fails just if it comes to an iterate with a slope of zero.
-/

namespace ZeroCurve.Newton

open Extended (number)

/-- What a pass from `y` divides by: the distance over which the slope is taken, the slope that is
used, and for an angle the full turn. -/
def divisors {α : Type} [Scalar α] (n : Newton α) (f : α → α) (y : α) : List α :=
  n.step :: steepen n.tolerance (n.slope f y) ::
    (n.halfTurn.map fun halfTurn => Scalar.ofInt 2 * halfTurn).toList

/-- Whether a slope may be used for another one: it is undefined or has at least the size of the
tolerance, and it has the sign of the other. -/
structure Replaces (tolerance slope used : Extended) : Prop where
  large : used = .undefined ∨ Scalar.magnitude used = tolerance ∨ tolerance < Scalar.magnitude used
  neg : slope < number 0 → used < number 0
  pos : number 0 < slope → number 0 < used

section Steepen

variable {tolerance : Extended}

theorem replaces_steepen (h : number 0 < tolerance) (slope : Extended) :
    Replaces tolerance slope (steepen tolerance slope) := by
  unfold steepen
  rw [Extended.ofInt_zero]
  split
  · split
    next hneg =>
      have hsize := Extended.magnitude_neg_of_zero_lt h
      refine ⟨.inr (.inl hsize), fun _ => Extended.neg_lt_zero h, fun hpos => ?_⟩
      exact absurd hneg (Extended.not_lt_zero_of_zero_lt hpos)
    next hnonneg =>
      have hsize := Extended.magnitude_of_zero_lt h
      exact ⟨.inr (.inl hsize), fun hneg => absurd hneg hnonneg, fun _ => h⟩
  next hlarge =>
    refine ⟨or_iff_not_imp_left.2 fun hdefined => ?_, id, id⟩
    have hsize := Extended.lt_or_eq_or_gt (Extended.magnitude_ne_undefined hdefined)
      (Extended.ne_undefined_of_zero_lt h)
    exact hsize.resolve_left hlarge

theorem Replaces.ne_zero {slope used : Extended} (h : Replaces tolerance slope used)
    (htolerance : number 0 < tolerance) : used ≠ number 0 := by
  rintro rfl
  have hsize := h.large
  rw [Extended.magnitude_number, abs_zero] at hsize
  rcases hsize with hundefined | heq | hlt
  · cases hundefined
  · exact Extended.not_lt_zero_of_zero_lt htolerance (heq ▸ htolerance)
  · exact Extended.not_lt_zero_of_zero_lt htolerance hlt

/-- A tolerance that is not above zero replaces no slope. -/
theorem steepen_of_not_zero_lt (h : ¬ number 0 < tolerance) (slope : Extended) :
    steepen tolerance slope = slope := by
  rw [steepen, if_neg (mt Extended.zero_lt_of_magnitude_lt h)]

end Steepen

variable {n : Newton Extended} {f : Extended → Extended} {start y : Extended}

theorem ne_zero_of_mem_divisors (htolerance : number 0 < n.tolerance) (hstep : n.step ≠ number 0)
    (hturn : ∀ halfTurn, n.halfTurn = some halfTurn → halfTurn ≠ number 0) :
    ∀ d ∈ n.divisors f y, d ≠ number 0 := by
  intro d hd
  simp only [divisors, List.mem_cons, Option.mem_toList, Option.map_eq_some_iff] at hd
  rcases hd with rfl | rfl | ⟨halfTurn, hsome, rfl⟩
  · exact hstep
  · exact (replaces_steepen htolerance _).ne_zero htolerance
  · exact Extended.ofInt_mul_ne_zero two_ne_zero (hturn halfTurn hsome)

/-- Where no slope is changed, a search fails just if it makes a pass from a place with a slope of
zero. -/
theorem solve_eq_error_iff_slopeAt (htolerance : ¬ number 0 < n.tolerance)
    (hstep : n.step ≠ number 0) :
    n.solve f start = .error .divisionByZero ↔
      ∃ k y, n.Reaches f start k ∧ n.iterate f start k = .ok y ∧
        n.slopeAt f y = .ok (number 0) := by
  have hstep' : Scalar.isZero n.step = false := Extended.isZero_eq_false_iff.2 hstep
  have hfault : ∀ y, n.advance f y = .error .divisionByZero ↔ n.slopeAt f y = .ok (number 0) := by
    intro y
    rw [advance_eq_error_iff hstep', steepen_of_not_zero_lt htolerance, slopeAt_eq_ok hstep',
      Extended.isZero_eq_true_iff, Except.ok.injEq]
  simp only [solve_eq_error_iff, hfault]

/-- With a tolerance above zero, whatever the values of the function are, no pass divides by zero,
for the slope that is used is undefined or at least as large as the tolerance, with the sign that it
had; so every search ends without a fault. With any other tolerance a search fails just if it makes
a pass from an iterate with a slope of zero. -/
theorem solve_divides_by_nonzero (n : Newton Extended) (f : Extended → Extended) (start : Extended)
    (hstep : n.step ≠ number 0)
    (hturn : ∀ halfTurn, n.halfTurn = some halfTurn → halfTurn ≠ number 0) :
    (number 0 < n.tolerance →
      (∀ y, (∀ d ∈ n.divisors f y, d ≠ number 0) ∧
        ∃ slope, n.slopeAt f y = .ok slope ∧
          Replaces n.tolerance slope (steepen n.tolerance slope)) ∧
      ∃ found, n.solve f start = .ok found) ∧
    (¬ number 0 < n.tolerance →
      (n.solve f start = .error .divisionByZero ↔
        ∃ k y, n.Reaches f start k ∧ n.iterate f start k = .ok y ∧
          n.slopeAt f y = .ok (number 0))) := by
  have hstep' : Scalar.isZero n.step = false := Extended.isZero_eq_false_iff.2 hstep
  refine ⟨fun htolerance => ⟨fun y => ⟨?_, ?_⟩, ?_⟩, fun htolerance => ?_⟩
  · exact ne_zero_of_mem_divisors htolerance hstep hturn
  · exact ⟨_, slopeAt_eq_ok hstep', replaces_steepen htolerance _⟩
  · refine solve_ok_of_advance_ok (fun y => ⟨_, advance_eq_ok hstep' ?_⟩) start
    exact Extended.isZero_eq_false_iff.2 ((replaces_steepen htolerance _).ne_zero htolerance)
  · exact solve_eq_error_iff_slopeAt htolerance hstep

/-- Steps of this tolerance for an angle, with a half turn of three. -/
def angular (tolerance : ℚ) : Newton Extended :=
  ⟨some (.number 3), 3, .number tolerance, .number 1, .number 1⟩

/-- The constant one has no slope: with a tolerance of one half this is used for it, and with a
tolerance of zero the first pass fails. -/
theorem solve_divides_by_nonzero_constant :
    (∀ tolerance, (angular tolerance).step ≠ number 0 ∧
      ∀ halfTurn, (angular tolerance).halfTurn = some halfTurn → halfTurn ≠ number 0) ∧
    number 0 < (angular (1 / 2)).tolerance ∧
    (angular (1 / 2)).divisors (fun _ => number 1) (number 0) =
      [number 1, number (1 / 2), number 6] ∧
    (∀ d ∈ [number 1, number (1 / 2), number 6], d ≠ number 0) ∧
    (∃ found, (angular (1 / 2)).solve (fun _ => number 1) (number 0) = .ok found) ∧
    ¬ number 0 < (angular 0).tolerance ∧
    (angular 0).solve (fun _ => number 1) (number 0) = .error .divisionByZero := by
  have hstep : ∀ tolerance, (angular tolerance).step ≠ number 0 := by
    intro tolerance
    show number 1 ≠ number 0
    decide +kernel
  have hturn : ∀ tolerance halfTurn, (angular tolerance).halfTurn = some halfTurn →
      halfTurn ≠ number 0 := by
    rintro tolerance - ⟨⟩
    decide +kernel
  have hpositive : number 0 < (angular (1 / 2)).tolerance := by decide +kernel
  have hzero : ¬ number 0 < (angular 0).tolerance := by decide +kernel
  have hdivisors : (angular (1 / 2)).divisors (fun _ => number 1) (number 0) =
      [number 1, number (1 / 2), number 6] := by decide +kernel
  have hsafe := (solve_divides_by_nonzero (angular (1 / 2)) (fun _ => number 1) (number 0)
    (hstep _) (hturn _)).1 hpositive
  have hfault := (solve_divides_by_nonzero (angular 0) (fun _ => number 1) (number 0)
    (hstep _) (hturn _)).2 hzero
  refine ⟨fun tolerance => ⟨hstep tolerance, hturn tolerance⟩, hpositive, hdivisors, ?_, hsafe.2,
    hzero, ?_⟩
  · rw [← hdivisors]
    exact (hsafe.1 (number 0)).1
  · refine hfault.2 ⟨0, number 0, ⟨by decide, fun j hj => absurd hj j.not_lt_zero⟩, rfl, ?_⟩
    decide +kernel

end ZeroCurve.Newton

import ZeroCurve.Proofs.Newton.Course
import ZeroCurve.Proofs.Scalar.Positive

/-!
# Newton steps divide by no zero

A step divides twice, and where neither divisor is zero it is given by a formula. A slope that could
be zero is replaced by the tolerance, which is not. So on doubles, with a positive tolerance, every
search comes to an end without a fault, whatever the function does.
-/

namespace ZeroCurve.Newton

section Step

variable {α : Type} [Scalar α] (n : Newton α) (f : α → α) (y : α)

/-- The slope at `y`, where the distance over which it is taken is not zero. -/
def slope : α := (f (y + n.step) - f y) / n.step

/-- The number itself, or its representative if the unknown is an angle. -/
def represent : α :=
  match n.halfTurn with
  | some halfTurn => Angle.wrap halfTurn y
  | none => y

variable {n f y}

theorem slopeAt_eq_ok (hstep : Scalar.isZero n.step = false) :
    n.slopeAt f y = .ok (n.slope f y) := by
  rw [slopeAt, Scalar.divide, hstep, if_neg Bool.false_ne_true, slope]

theorem advance_eq_advanceBy (hstep : Scalar.isZero n.step = false) :
    n.advance f y = n.advanceBy y (f y) (n.slope f y) := by
  rw [advance, slopeAt_eq_ok hstep]
  rfl

theorem advance_eq_ok (hstep : Scalar.isZero n.step = false)
    (hslope : Scalar.isZero (steepen n.tolerance (n.slope f y)) = false) :
    n.advance f y =
      .ok (n.represent (y - n.damping * (f y / steepen n.tolerance (n.slope f y)))) := by
  have hratio : Scalar.divide (f y) (steepen n.tolerance (n.slope f y)) =
      .ok (f y / steepen n.tolerance (n.slope f y)) := by
    rw [Scalar.divide, hslope, if_neg Bool.false_ne_true]
  rw [advance_eq_advanceBy hstep, advanceBy, hratio]
  rfl

/-- Where the slope can be taken, a step has a fault just if the slope that is used is zero. -/
theorem advance_eq_error_iff (hstep : Scalar.isZero n.step = false) :
    n.advance f y = .error .divisionByZero ↔
      Scalar.isZero (steepen n.tolerance (n.slope f y)) = true := by
  cases hslope : Scalar.isZero (steepen n.tolerance (n.slope f y)) with
  | true =>
    refine iff_of_true ?_ rfl
    rw [advance_eq_advanceBy hstep, advanceBy, Scalar.divide, hslope]
    rfl
  | false =>
    rw [advance_eq_ok hstep hslope]
    simp

/-- Where a step leads is a representative. -/
theorem exists_represent_of_advance {next : α} (h : n.advance f y = .ok next) :
    ∃ z, next = n.represent z := by
  cases hslope : n.slopeAt f y with
  | error fault =>
    rw [advance, hslope] at h
    cases h
  | ok slope =>
    have hadvance : n.advanceBy y (f y) slope = .ok next := by
      rw [advance, hslope] at h
      exact h
    cases hratio : Scalar.divide (f y) (steepen n.tolerance slope) with
    | error fault =>
      rw [advanceBy, hratio] at hadvance
      cases hadvance
    | ok ratio =>
      rw [advanceBy, hratio] at hadvance
      exact ⟨y - n.damping * ratio, (Except.ok.inj hadvance).symm⟩

theorem exists_represent_of_solve {start : α} (h : n.solve f start = .ok (some y)) :
    ∃ z, y = n.represent z := by
  obtain ⟨k, ⟨⟨j, rfl, before, next, hbefore, hnext, -⟩, -⟩, -, hy⟩ := solve_eq_some_iff.1 h
  exact exists_represent_of_advance ((iterate_succ hbefore).symm.trans hy)

end Step

open Double

/-- A zero is closer to zero than any tolerance. -/
theorem magnitude_lt_of_isZero {tolerance slope : Float} (h : IsAboveZero tolerance.toModel.unpack)
    (hslope : Scalar.isZero slope = true) : Scalar.magnitude slope < tolerance := by
  obtain ⟨s, hs⟩ := isZero_iff.1 hslope
  have hnonneg : ¬ slope < Scalar.ofInt 0 := by
    have hzero : (Scalar.ofInt 0 : Float).toModel.unpack = .zero .positive := by rfl
    rw [lt_iff_unpack, hs, hzero]
    exact Bool.false_ne_true
  rw [Scalar.magnitude, if_neg hnonneg, lt_iff_unpack, hs]
  rcases h.cases with hu | ⟨m, e, hm, -, hu⟩
  · rw [hu]
    rfl
  · rw [hu]
    rfl

theorem isZero_steepen {tolerance : Float} (h : IsAboveZero tolerance.toModel.unpack)
    (slope : Float) : Scalar.isZero (steepen tolerance slope) = false := by
  unfold steepen
  split
  · split
    · exact isZero_neg_of_isAboveZero h
    · exact isZero_of_isAboveZero h
  next hlarge =>
    rw [← Bool.not_eq_true]
    exact fun hzero => hlarge (magnitude_lt_of_isZero h hzero)

/-- Whether no step of an iteration can divide by zero. -/
structure IsSafe (n : Newton Float) : Prop where
  tolerance : IsAboveZero n.tolerance.toModel.unpack
  step : Scalar.isZero n.step = false

theorem isSafe_standard (halfTurn : Option Float) : IsSafe (.standard halfTurn) where
  tolerance := by
    have hpositive : Scalar.ofInt 0 < (Scalar.ofDecimal ⟨1, 10⟩ : Float) := by decide +kernel
    exact zero_lt_iff.1 hpositive
  step := by
    have hstep : Scalar.isZero (Scalar.ofDecimal ⟨1, 7⟩ : Float) = false := by decide +kernel
    exact hstep

variable {n : Newton Float}

theorem IsSafe.advance_ok (h : n.IsSafe) (f : Float → Float) (y : Float) :
    ∃ next, n.advance f y = .ok next :=
  ⟨_, advance_eq_ok h.step (isZero_steepen h.tolerance _)⟩

/-- A search ends without a fault. -/
theorem IsSafe.solve_ok (h : n.IsSafe) (f : Float → Float) (start : Float) :
    ∃ found, n.solve f start = .ok found :=
  solve_ok_of_advance_ok (h.advance_ok f) start

end ZeroCurve.Newton

import ZeroCurve.Proofs.Scalar.Positive
import ZeroCurve.View

/-!
# A view never breaks

Zooming keeps a zoom above zero on doubles: at the least positive double, half of it and more are
rounded up to it again. So every code applies to every view.
-/

namespace ZeroCurve.View

open Double

theorem zero_lt_mul_zoomStep {zoom : Float} (h : Scalar.ofInt 0 < zoom) :
    Scalar.ofInt 0 < zoom * zoomStep := by
  have hstep : (zoomStep : Float).toModel.unpack =
      .finite .positive (3 * 2 ^ 51) (-52) (by decide) := by rfl
  rw [zero_lt_iff] at h ⊢
  show IsAboveZero (Float.Model.pack (Float.Model.UnpackedFloat.mul _ _ _)).unpack
  rw [hstep]
  refine isAboveZero_mul h (by decide) ?_
  norm_num

theorem zero_lt_div_zoomStep {zoom : Float} (h : Scalar.ofInt 0 < zoom) :
    Scalar.ofInt 0 < zoom / zoomStep := by
  have hstep : (zoomStep : Float).toModel.unpack =
      .finite .positive (3 * 2 ^ 51) (-52) (by decide) := by rfl
  rw [zero_lt_iff] at h ⊢
  show IsAboveZero (Float.Model.pack (Float.Model.UnpackedFloat.div _ _ _)).unpack
  rw [hstep]
  refine isAboveZero_div h ?_
  norm_num

/-- Every change leads to a view. -/
theorem move_ok (v : View Float) (m : Move) : ∃ next, v.move m = .ok next := by
  cases m with
  | zoomIn => exact ⟨_, make_eq (zero_lt_mul_zoomStep v.zoom_pos) _ _⟩
  | zoomOut => exact ⟨_, make_eq (zero_lt_div_zoomStep v.zoom_pos) _ _⟩
  | left | right | up | down => exact ⟨_, make_eq v.zoom_pos _ _⟩

theorem apply_change {α : Type} [Scalar α] {v next : View α} {code : Text} {m : Move}
    (hcode : Command.ofCode? code = some (.change m)) (h : v.move m = .ok next) :
    v.apply code = .ok (next, .redraw) := by
  unfold apply
  rw [hcode]
  dsimp only
  rw [h]
  rfl

/-- Every code applies to every view. -/
theorem apply_ok (v : View Float) (code : Text) : ∃ next, v.apply code = .ok next := by
  unfold apply
  split
  next m _ =>
    obtain ⟨next, hnext⟩ := v.move_ok m
    exact ⟨(next, .redraw), by rw [hnext]; rfl⟩
  next => exact ⟨_, rfl⟩
  next => exact ⟨_, rfl⟩
  next => exact ⟨_, rfl⟩

end ZeroCurve.View

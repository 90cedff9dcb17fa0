import ZeroCurve.Proofs.Projection.Exact
import ZeroCurve.View

/-!
# Moving the view

In exact arithmetic, a move to the side or up and down shifts the picture by the cells of one unit
at zoom one, whatever the zoom is: the samples of all columns and the position of every row go
together.
-/

namespace ZeroCurve

namespace Projection

/-- The window that shows what is this many columns further right, and rows further up. -/
def shifted (p : Projection ℚ) (columns rows : Int) : Projection ℚ :=
  { p with
    xOffset := p.xOffset + columns / (p.scale * p.zoom)
    yOffset := p.yOffset + rows / (p.scale * p.zoom) }

variable {p : Projection ℚ} {columns rows : Int}

theorem columnX_shifted (h : p.scale * p.zoom ≠ 0) (column sub count : Int) :
    (p.shifted columns rows).columnX column sub count =
      p.columnX (column + columns) sub count := by
  rw [columnX_eq (p := p.shifted columns rows) h, columnX_eq h]
  refine congrArg (Except.map · _) (funext fun part => ?_)
  show ((column - p.width / 2 : Int) + part) / (p.scale * p.zoom) +
    (p.xOffset + columns / (p.scale * p.zoom)) = _
  rw [add_left_comm, ← add_div, add_comm p.xOffset, add_right_cancel_iff, Int.cast_sub,
    Int.cast_sub, Int.cast_add]
  ring

theorem rowPosition_shifted (h : p.scale * p.zoom ≠ 0) (y : ℚ) :
    (p.shifted columns rows).rowPosition y = p.rowPosition y + rows := by
  have hstep : (rows : ℚ) / (p.scale * p.zoom) * p.scale * p.zoom = rows := by
    rw [mul_assoc, div_mul_cancel₀ _ h]
  calc (p.shifted columns rows).rowPosition y
      = p.rowPosition y + rows / (p.scale * p.zoom) * p.scale * p.zoom := by
        simp only [rowPosition, shifted]
        ring
    _ = p.rowPosition y + rows := by rw [hstep]

theorem rowOf_shifted_zero (y : ℚ) : (p.shifted columns 0).rowOf y = p.rowOf y := by
  have hposition : (p.shifted columns 0).rowPosition y = p.rowPosition y := by
    simp only [rowPosition, shifted, Int.cast_zero, zero_div, add_zero]
  rw [rowOf, hposition]
  rfl

theorem axisRow_shifted_zero : (p.shifted columns 0).axisRow = p.axisRow := by
  simp only [axisRow, shifted, Int.cast_zero, zero_div, add_zero]

theorem axisColumn_shifted_zero : (p.shifted 0 rows).axisColumn = p.axisColumn := by
  simp only [axisColumn, shifted, Int.cast_zero, zero_div, add_zero]

/-- Positions that are not negative are cut to rows as far apart as they are. -/
theorem trunc_rowPosition_shifted (h : p.scale * p.zoom ≠ 0) {y : ℚ} (hy : 0 ≤ p.rowPosition y)
    (hy' : 0 ≤ (p.shifted columns rows).rowPosition y) :
    Exact.trunc ((p.shifted columns rows).rowPosition y) =
      Exact.trunc (p.rowPosition y) + rows := by
  rw [rowPosition_shifted h] at hy' ⊢
  exact Exact.trunc_add_intCast hy hy'

end Projection

namespace View

/-- Whether a move keeps the zoom. -/
def Move.IsPan (m : Move) : Prop := m ≠ .zoomIn ∧ m ≠ .zoomOut

/-- How many columns further right the view stands after a move. -/
def Move.columns : Move → Int
  | .left => -5
  | .right => 5
  | _ => 0

/-- How many rows further up the view stands after a move. -/
def Move.rows : Move → Int
  | .up => 5
  | .down => -5
  | _ => 0

theorem scale_mul_zoom_ne_zero (v : View ℚ) (width height : Int) :
    (v.window width height 5).scale * (v.window width height 5).zoom ≠ 0 := by
  have hzoom : (0 : ℚ) < v.zoom := v.zoom_pos
  exact mul_ne_zero (by norm_num [window]) hzoom.ne'

theorem window_eq_shifted {v next : View ℚ} {columns rows : Int} (hzoom : next.zoom = v.zoom)
    (hx : next.xOffset = v.xOffset + columns / (5 * v.zoom))
    (hy : next.yOffset = v.yOffset + rows / (5 * v.zoom)) (width height : Int) :
    next.window width height 5 = (v.window width height 5).shifted columns rows := by
  simp only [window, Projection.shifted, hzoom, hx, hy]

/-- A move goes the cells of its table, whatever the zoom is. -/
theorem move_eq_shifted (v : View ℚ) {m : Move} (h : m.IsPan) :
    ∃ next, v.move m = .ok next ∧ ∀ width height,
      next.window width height 5 = (v.window width height 5).shifted m.columns m.rows := by
  -- a step is as wide as five cells because there are five cells to the unit at zoom one
  have hstep : ((5 : Int) : ℚ) / (5 * v.zoom) = v.panStep := by
    show _ = ((1 : Int) : ℚ) / v.zoom
    rw [div_mul_eq_div_div]
    norm_num
  have hback : ((-5 : Int) : ℚ) / (5 * v.zoom) = -v.panStep := by
    rw [← hstep, Int.cast_neg, neg_div]
  have hstay : ∀ a : ℚ, a = a + ((0 : Int) : ℚ) / (5 * v.zoom) := by
    intro a
    simp
  cases m with
  | zoomIn => exact absurd rfl h.1
  | zoomOut => exact absurd rfl h.2
  | left =>
    refine ⟨_, make_eq v.zoom_pos _ _, window_eq_shifted rfl ?_ (hstay _)⟩
    rw [Move.columns, hback, ← sub_eq_add_neg]
  | right =>
    refine ⟨_, make_eq v.zoom_pos _ _, window_eq_shifted rfl ?_ (hstay _)⟩
    rw [Move.columns, hstep]
  | up =>
    refine ⟨_, make_eq v.zoom_pos _ _, window_eq_shifted rfl (hstay _) ?_⟩
    rw [Move.rows, hstep]
  | down =>
    refine ⟨_, make_eq v.zoom_pos _ _, window_eq_shifted rfl (hstay _) ?_⟩
    rw [Move.rows, hback, ← sub_eq_add_neg]

/-- A move to the side or up and down shifts the picture by five cells at any zoom. Each sample gets
the abscissa that the sample five columns on had; an ordinate and the horizontal axis go five rows,
if their positions are not negative; and what a move does not turn to stays where it is. -/
theorem move_pans {m : Move} (h : m.IsPan) (v : View ℚ) (width height : Int) :
    ∃ next, v.move m = .ok next ∧
      (∀ column sub count,
        (next.window width height 5).columnX column sub count =
          (v.window width height 5).columnX (column + m.columns) sub count) ∧
      (∀ y, 0 ≤ (v.window width height 5).rowPosition y →
        0 ≤ (next.window width height 5).rowPosition y → ∀ row row',
          (v.window width height 5).rowOf y = some row →
          (next.window width height 5).rowOf y = some row' → row' = row + m.rows) ∧
      (0 ≤ (v.window width height 5).rowPosition 0 →
        0 ≤ (next.window width height 5).rowPosition 0 →
          (next.window width height 5).axisRow =
            (v.window width height 5).axisRow.map (· + m.rows)) ∧
      (m = .left ∨ m = .right →
        (∀ y, (next.window width height 5).rowOf y = (v.window width height 5).rowOf y) ∧
        (next.window width height 5).axisRow = (v.window width height 5).axisRow) ∧
      (m = .up ∨ m = .down →
        (∀ column sub count, (next.window width height 5).columnX column sub count =
          (v.window width height 5).columnX column sub count) ∧
        (next.window width height 5).axisColumn = (v.window width height 5).axisColumn) := by
  obtain ⟨next, hnext, hwindow⟩ := v.move_eq_shifted h
  have hscale := v.scale_mul_zoom_ne_zero width height
  refine ⟨next, hnext, ?_⟩
  rw [hwindow]
  refine ⟨?_, ?_, ?_, ?_, ?_⟩
  · intro column sub count
    exact Projection.columnX_shifted hscale column sub count
  · intro y hy hy' row row' hrow hrow'
    rw [Projection.rowOf_eq_some_iff] at hrow hrow'
    rw [← hrow.2, ← hrow'.2]
    exact Projection.trunc_rowPosition_shifted hscale hy hy'
  · intro hy hy'
    rw [Projection.axisRow_eq, Projection.axisRow_eq, Option.map_some,
      Projection.trunc_rowPosition_shifted hscale hy hy']
  · intro hm
    have hrows : m.rows = 0 := by
      rcases hm with rfl | rfl <;> rfl
    rw [hrows]
    exact ⟨Projection.rowOf_shifted_zero, Projection.axisRow_shifted_zero⟩
  · intro hm
    have hcolumns : m.columns = 0 := by
      rcases hm with rfl | rfl <;> rfl
    rw [hcolumns]
    refine ⟨?_, Projection.axisColumn_shifted_zero⟩
    intro column sub count
    rw [Projection.columnX_shifted hscale, add_zero]

/-- A view at a zoom that is not a whole number. -/
def zoomed : View ℚ := ⟨3 / 2, 0, 0, by decide +kernel⟩

/-- One step up takes half a unit from row six to row eleven there. -/
theorem move_pans_up_zoomed :
    Move.up.IsPan ∧ ∃ next, zoomed.move .up = .ok next ∧
      0 ≤ (zoomed.window 80 20 5).rowPosition (1 / 2) ∧
      0 ≤ (next.window 80 20 5).rowPosition (1 / 2) ∧
      (zoomed.window 80 20 5).rowOf (1 / 2) = some 6 ∧
      (next.window 80 20 5).rowOf (1 / 2) = some (6 + 5) ∧
      (next.window 80 20 5).axisRow = some (10 + 5) := by
  have hpan : Move.up.IsPan := ⟨by decide, by decide⟩
  obtain ⟨next, hnext, -, hrow, haxis, -⟩ := move_pans hpan zoomed 80 20
  have hmove : zoomed.move .up = .ok ⟨3 / 2, 0, 0 + zoomed.panStep, zoomed.zoom_pos⟩ :=
    make_eq zoomed.zoom_pos _ _
  cases hmove.symm.trans hnext
  have hbefore : 0 ≤ (zoomed.window 80 20 5).rowPosition (1 / 2) := by decide +kernel
  refine ⟨hpan, _, hnext, hbefore, by decide +kernel, by decide +kernel, ?_, ?_⟩
  · obtain ⟨row, hafter⟩ : ∃ row, (window ⟨3 / 2, 0, 0 + zoomed.panStep, zoomed.zoom_pos⟩
        80 20 5).rowOf (1 / 2) = some row := ⟨11, by decide +kernel⟩
    rw [hafter, hrow _ hbefore (by decide +kernel) 6 row (by decide +kernel) hafter]
    rfl
  · rw [haxis (by decide +kernel) (by decide +kernel)]
    decide +kernel

end View

end ZeroCurve

import ZeroCurve.Projection
import ZeroCurve.Proofs.Scalar.Exact

/-!
# The window in exact arithmetic

Without rounding, columns and rows are cut out of positions: the abscissa of the first sample of a
column is the one whose position is the column's number, and each axis stands at the position of
zero.
-/

namespace ZeroCurve.Projection

variable (p : Projection ℚ)

/-- The position of an abscissa in columns, before it is cut to a whole column. -/
def columnPosition (x : ℚ) : ℚ :=
  ((p.width / 2 : Int) : ℚ) + (x - p.xOffset) * p.scale * p.zoom

theorem axisColumn_eq : p.axisColumn = some (Exact.trunc (p.columnPosition 0)) := by
  have hposition : p.columnPosition 0 =
      ((p.width / 2 : Int) : ℚ) - p.xOffset * p.scale * p.zoom := by
    rw [columnPosition]
    ring
  rw [hposition]
  rfl

theorem rowPosition_eq (y : ℚ) :
    p.rowPosition y = ((p.height / 2 : Int) : ℚ) - (y - p.yOffset) * (p.scale * p.zoom) := by
  show ((p.height / 2 : Int) : ℚ) - y * p.scale * p.zoom + p.yOffset * p.scale * p.zoom = _
  ring

theorem axisRow_eq : p.axisRow = some (Exact.trunc (p.rowPosition 0)) := by
  have hposition : p.rowPosition 0 =
      ((p.height / 2 : Int) : ℚ) + p.yOffset * p.scale * p.zoom := by
    rw [rowPosition_eq]
    ring
  rw [hposition]
  rfl

theorem rowOf_eq_some_iff {y : ℚ} {row : Int} :
    p.rowOf y = some row ↔
      (-1 < p.rowPosition y ∧ p.rowPosition y < p.height) ∧
        Exact.trunc (p.rowPosition y) = row := by
  have hone : (-Scalar.ofInt 1 : ℚ) = -1 := by
    show -((1 : Int) : ℚ) = -1
    norm_num
  rw [rowOf, hone]
  exact Option.ite_none_right_eq_some.trans (and_congr_right' Option.some_inj)

variable {p}

theorem columnX_eq (h : p.scale * p.zoom ≠ 0) (column sub count : Int) :
    p.columnX column sub count =
      (Scalar.divide (sub : ℚ) (count : ℚ)).map fun part =>
        ((column - p.width / 2 : Int) + part) / (p.scale * p.zoom) + p.xOffset := by
  show (Scalar.divide (sub : ℚ) (count : ℚ) >>= fun part =>
    Scalar.divide (((column - p.width / 2 : Int) : ℚ) + part) (p.scale * p.zoom) >>= fun x =>
      pure (x + p.xOffset)) = _
  cases Scalar.divide (sub : ℚ) (count : ℚ) with
  | error fault => rfl
  | ok part =>
    show (Scalar.divide _ _ >>= _) = _
    rw [Exact.divide_eq h]
    rfl

/-- The abscissa of the first sample of a column. -/
def firstX (p : Projection ℚ) (column : Int) : ℚ :=
  ((column - p.width / 2 : Int) : ℚ) / (p.scale * p.zoom) + p.xOffset

theorem columnX_zero (h : p.scale * p.zoom ≠ 0) {count : Int} (hcount : count ≠ 0)
    (column : Int) : p.columnX column 0 count = .ok (p.firstX column) := by
  have hcount' : (count : ℚ) ≠ 0 := by exact_mod_cast hcount
  rw [columnX_eq h, Exact.divide_eq hcount']
  simp [Except.map, firstX]

/-- The first sample of a column stands at the column's number. -/
theorem columnPosition_firstX (h : p.scale * p.zoom ≠ 0) (column : Int) :
    p.columnPosition (p.firstX column) = column := by
  rw [columnPosition, firstX, add_sub_cancel_right, mul_assoc, div_mul_cancel₀ _ h]
  simp

theorem columnPosition_le_iff (h : 0 < p.scale * p.zoom) {x x' : ℚ} :
    p.columnPosition x ≤ p.columnPosition x' ↔ x ≤ x' := by
  rw [columnPosition, columnPosition, add_le_add_iff_left, mul_assoc, mul_assoc,
    mul_le_mul_iff_left₀ h, sub_le_sub_iff_right]

theorem firstX_le_iff (h : 0 < p.scale * p.zoom) {column : Int} {x : ℚ} :
    p.firstX column ≤ x ↔ column ≤ p.columnPosition x := by
  rw [← columnPosition_firstX h.ne' column, columnPosition_le_iff h]

theorem le_firstX_iff (h : 0 < p.scale * p.zoom) {column : Int} {x : ℚ} :
    x ≤ p.firstX column ↔ p.columnPosition x ≤ column := by
  rw [← columnPosition_firstX h.ne' column, columnPosition_le_iff h]

end ZeroCurve.Projection

import ZeroCurve.Canvas
import ZeroCurve.Proofs.Projection.Exact

/-!
# Where the vertical axis stands

In exact arithmetic the vertical axis stands in the column that samples zero. There is one exception:
positions are cut off toward zero, so an axis less than one column to the left of the grid is drawn
in the first column, although no column of the grid samples zero.
-/

namespace ZeroCurve.Projection

variable {p : Projection ℚ} {count column : Int}

/-- Whether an abscissa is at or behind the first sample of a column, and before that of the next. -/
def Samples (p : Projection ℚ) (count column : Int) (x : ℚ) : Prop :=
  ∃ first next, p.columnX column 0 count = .ok first ∧ p.columnX (column + 1) 0 count = .ok next ∧
    first ≤ x ∧ x < next

/-- Whether an abscissa is to the left of the grid by less than one column. -/
def IsJustLeft (p : Projection ℚ) (count : Int) (x : ℚ) : Prop :=
  ∃ before first, p.columnX (-1) 0 count = .ok before ∧ p.columnX 0 0 count = .ok first ∧
    before < x ∧ x < first

/-- Whether a column takes an abscissa: it samples it, or it is the first column and the abscissa is
just left of it. -/
def Takes (p : Projection ℚ) (count column : Int) (x : ℚ) : Prop :=
  p.Samples count column x ∨ column = 0 ∧ p.IsJustLeft count x

theorem samples_iff (h : 0 < p.scale * p.zoom) (hcount : count ≠ 0) {x : ℚ} :
    p.Samples count column x ↔
      (column : ℚ) ≤ p.columnPosition x ∧ p.columnPosition x < column + 1 := by
  have hbounds : p.Samples count column x ↔ p.firstX column ≤ x ∧ x < p.firstX (column + 1) := by
    simp [Samples, columnX_zero h.ne' hcount]
  rw [hbounds, firstX_le_iff h, ← not_le, firstX_le_iff h, not_le]
  simp

theorem isJustLeft_iff (h : 0 < p.scale * p.zoom) (hcount : count ≠ 0) {x : ℚ} :
    p.IsJustLeft count x ↔ -1 < p.columnPosition x ∧ p.columnPosition x < 0 := by
  have hbounds : p.IsJustLeft count x ↔ p.firstX (-1) < x ∧ x < p.firstX 0 := by
    simp [IsJustLeft, columnX_zero h.ne' hcount]
  rw [hbounds, ← not_le, ← not_le, firstX_le_iff h, le_firstX_iff h, not_le, not_le]
  simp

/-- A column of the grid takes what is cut off to its number. -/
theorem takes_iff (h : 0 < p.scale * p.zoom) (hcount : count ≠ 0) (hcolumn : 0 ≤ column) {x : ℚ} :
    p.Takes count column x ↔ Exact.trunc (p.columnPosition x) = column := by
  rw [Takes, samples_iff h hcount, isJustLeft_iff h hcount, Exact.trunc_eq_iff hcolumn]

theorem axisColumn_eq_some_iff (h : 0 < p.scale * p.zoom) (hcount : count ≠ 0)
    (hcolumn : 0 ≤ column) : p.axisColumn = some column ↔ p.Takes count column 0 := by
  rw [axisColumn_eq, takes_iff h hcount hcolumn, Option.some_inj]

/-- The vertical axis is drawn in a column of the grid just if the column takes zero, and it is
drawn nowhere if no column does. -/
theorem drawAxes_vertical (hscale : 0 < p.scale) (hzoom : 0 < p.zoom) (hcount : 0 < count)
    {height : Nat} (g : Canvas p.width.toNat height) (axisRow : Option Int) :
    (∀ c : Fin p.width.toNat,
      (p.axisColumn = some (c : Int) ↔ p.Takes count c 0) ∧
      (p.Takes count c 0 → ∀ r,
        (g.drawAxes axisRow p.axisColumn).get r c = Canvas.axisMark Canvas.axisBar r) ∧
      (¬ p.Takes count c 0 → ∀ r,
        (g.drawAxes axisRow p.axisColumn).get r c = (g.drawAxes axisRow none).get r c)) ∧
    ((∀ c : Fin p.width.toNat, ¬ p.Takes count c 0) →
      g.drawAxes axisRow p.axisColumn = g.drawAxes axisRow none) := by
  have hcolumn : ∀ c : Fin p.width.toNat,
      p.axisColumn = some (c : Int) ↔ p.Takes count c 0 := by
    intro c
    exact axisColumn_eq_some_iff (mul_pos hscale hzoom) hcount.ne' (Int.natCast_nonneg c)
  have hother : ∀ c : Fin p.width.toNat, ¬ p.Takes count c 0 → ∀ r,
      (g.drawAxes axisRow p.axisColumn).get r c = (g.drawAxes axisRow none).get r c := by
    intro c h r
    simp [Canvas.get_drawAxes, mt (hcolumn c).1 h]
  refine ⟨?_, ?_⟩
  · intro c
    refine ⟨hcolumn c, ?_, hother c⟩
    intro h r
    rw [Canvas.get_drawAxes, if_pos ((hcolumn c).2 h)]
  · intro h
    apply Canvas.ext_get
    intro r c
    exact hother c (h c) r

/-- The printed grid at zoom one, with this abscissa in the middle. -/
def around (xOffset : ℚ) : Projection ℚ := ⟨80, 20, 5, 1, xOffset, 0⟩

/-- Around two the vertical axis stands ten columns to the left of the middle. -/
theorem drawAxes_vertical_around_two :
    0 < (around 2).scale ∧ 0 < (around 2).zoom ∧ (around 2).Takes 10 30 0 ∧
    ((Canvas.empty : Canvas 80 20).drawAxes none (around 2).axisColumn).get 1 30 =
      Canvas.axisBar := by
  have hscale : 0 < (around 2).scale := by norm_num [around]
  have hzoom : 0 < (around 2).zoom := by norm_num [around]
  have hcount : (0 : Int) < 10 := by decide
  have htakes : (around 2).Takes 10 30 0 := by
    rw [takes_iff (mul_pos hscale hzoom) hcount.ne' (by decide)]
    decide +kernel
  have hdrawn := drawAxes_vertical hscale hzoom hcount (Canvas.empty : Canvas 80 20) none
  exact ⟨hscale, hzoom, htakes, (hdrawn.1 (30 : Fin 80)).2.1 htakes 1⟩

/-- Less than one column off the left edge, the vertical axis is drawn in the first column, although
no column of the grid samples zero. -/
theorem axisColumn_off_left_edge :
    (around (65 / 8)).axisColumn = some 0 ∧
    (∀ column : Int, 0 ≤ column → ¬ (around (65 / 8)).Samples 10 column 0) ∧
    ((Canvas.empty : Canvas 80 20).drawAxes none (around (65 / 8)).axisColumn).get 1 0 =
      Canvas.axisBar := by
  have hcolumn : (around (65 / 8)).axisColumn = some 0 := by decide +kernel
  refine ⟨hcolumn, ?_, ?_⟩
  · intro column h
    have hposition : (around (65 / 8)).columnPosition 0 = -5 / 8 := by
      norm_num [around, columnPosition]
    have hnonneg : (0 : ℚ) ≤ column := by exact_mod_cast h
    rw [samples_iff (by norm_num [around]) (by decide), hposition]
    rintro ⟨hle, -⟩
    linarith
  · rw [hcolumn]
    decide

end ZeroCurve.Projection

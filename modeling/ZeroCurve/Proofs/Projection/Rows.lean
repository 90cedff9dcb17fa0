import ZeroCurve.Canvas
import ZeroCurve.Proofs.Projection.Exact

/-!
# Which row an ordinate has

In exact arithmetic, a grid with rows has a row for an ordinate just if its position is cut off to the
number of one, so the horizontal axis is drawn in the row of zero. A grid without rows is different:
the positions less than one above it are still cut off to row zero, which it does not have.
-/

namespace ZeroCurve

namespace Canvas

variable {height : Nat}

/-- Whether a horizontal axis is drawn in a row: whatever its cells held, they hold the marks of the
axis then, but for the cell of a vertical axis. -/
def IsAxisRow (axisRow : Option Int) (r : Fin height) : Prop :=
  ∀ {width : Nat} (g : Canvas width height) (axisColumn : Option Int) (c : Fin width),
    axisColumn ≠ some (c : Int) → (g.drawAxes axisRow axisColumn).get r c = axisMark axisDash c

theorem isAxisRow_iff {axisRow : Option Int} {r : Fin height} :
    IsAxisRow axisRow r ↔ axisRow = some (r : Int) := by
  constructor
  · intro h
    by_contra hne
    have hmark := h (empty : Canvas 1 height) none 0 (by simp)
    rw [get_drawAxes, if_neg (by simp), if_neg hne, empty, get_ofFn] at hmark
    exact absurd hmark (by decide)
  · intro h width g axisColumn c hc
    rw [get_drawAxes, if_neg hc, if_pos h]

/-- An axis in a row that the grid does not have is not drawn. -/
theorem drawAxes_congr {width : Nat} {axisRow axisRow' : Option Int}
    (h : ∀ r : Fin height, axisRow = some (r : Int) ↔ axisRow' = some (r : Int))
    (g : Canvas width height) (axisColumn : Option Int) :
    g.drawAxes axisRow axisColumn = g.drawAxes axisRow' axisColumn := by
  apply ext_get
  intro r c
  simp only [get_drawAxes, h r]

end Canvas

namespace Projection

variable {p : Projection ℚ} {y : ℚ} {row : Int}

/-- Whether an ordinate is less than one row above a grid without rows. -/
def IsAboveNothing (p : Projection ℚ) (y : ℚ) : Prop :=
  p.height = 0 ∧ -1 < p.rowPosition y ∧ p.rowPosition y < 0

theorem rowOf_eq_some_iff_trunc (h : 0 < p.height) :
    p.rowOf y = some row ↔ Exact.trunc (p.rowPosition y) = row ∧ 0 ≤ row ∧ row < p.height := by
  rw [rowOf_eq_some_iff, ← Exact.trunc_mem_iff h, and_comm]
  exact and_congr_right fun hrow => by rw [hrow]

theorem rowOf_inside (h : 0 < p.height) (hrow : p.rowOf y = some row) : 0 ≤ row ∧ row < p.height :=
  ((rowOf_eq_some_iff_trunc h).1 hrow).2

/-- On a grid without rows there is still a row for the positions less than one above it. -/
theorem rowOf_eq_some_iff_of_height (h : p.height = 0) :
    p.rowOf y = some row ↔ row = 0 ∧ p.IsAboveNothing y := by
  rw [rowOf_eq_some_iff, IsAboveNothing, h, Int.cast_zero]
  constructor
  · rintro ⟨⟨hlow, hhigh⟩, htrunc⟩
    have hzero : Exact.trunc (p.rowPosition y) = 0 :=
      (Exact.trunc_eq_iff le_rfl).2 (.inr ⟨rfl, hlow, hhigh⟩)
    exact ⟨htrunc.symm.trans hzero, rfl, hlow, hhigh⟩
  · rintro ⟨rfl, -, hlow, hhigh⟩
    exact ⟨⟨hlow, hhigh⟩, (Exact.trunc_eq_iff le_rfl).2 (.inr ⟨rfl, hlow, hhigh⟩)⟩

/-- A row that an ordinate has is one of the grid, unless the ordinate is just above a grid that has
none. -/
theorem forall_rowOf_inside_iff (h : 0 ≤ p.height) :
    (∀ row, p.rowOf y = some row → 0 ≤ row ∧ row < p.height) ↔ ¬ p.IsAboveNothing y := by
  rcases h.lt_or_eq with hpos | hzero
  · exact iff_of_true (fun row => rowOf_inside hpos) fun habove => hpos.ne' habove.1
  · rw [← hzero]
    constructor
    · intro hmem habove
      exact absurd (hmem 0 ((rowOf_eq_some_iff_of_height hzero.symm).2 ⟨rfl, habove⟩)).2 (lt_irrefl 0)
    · intro habove row hrow
      exact absurd ((rowOf_eq_some_iff_of_height hzero.symm).1 hrow).2 habove

/-- On a grid with rows the horizontal axis is drawn in the row of zero, and in none if zero has
none. -/
theorem drawAxes_horizontal (h : 0 < p.height) :
    (∀ row, p.rowOf 0 = some row ↔ p.axisRow = some row ∧ 0 ≤ row ∧ row < p.height) ∧
    (∀ r : Fin p.height.toNat, Canvas.IsAxisRow p.axisRow r ↔ p.rowOf 0 = some (r : Int)) ∧
    ((∀ r : Fin p.height.toNat, ¬ Canvas.IsAxisRow p.axisRow r) ↔ p.rowOf 0 = none) ∧
    ∀ {width : Nat} (g : Canvas width p.height.toNat) (axisColumn : Option Int),
      g.drawAxes p.axisRow axisColumn = g.drawAxes (p.rowOf 0) axisColumn := by
  have hrow : ∀ row, p.rowOf 0 = some row ↔ p.axisRow = some row ∧ 0 ≤ row ∧ row < p.height := by
    intro row
    rw [rowOf_eq_some_iff_trunc h, axisRow_eq, Option.some_inj]
  have hgrid : ∀ r : Fin p.height.toNat, p.axisRow = some (r : Int) ↔ p.rowOf 0 = some (r : Int) := by
    intro r
    have hr := r.isLt
    rw [hrow, and_iff_left]
    omega
  have hdrawn : ∀ r : Fin p.height.toNat,
      Canvas.IsAxisRow p.axisRow r ↔ p.rowOf 0 = some (r : Int) := by
    intro r
    rw [Canvas.isAxisRow_iff, hgrid]
  refine ⟨hrow, hdrawn, ?_, fun g axisColumn => Canvas.drawAxes_congr hgrid g axisColumn⟩
  simp only [hdrawn]
  constructor
  · intro hnone
    rw [Option.eq_none_iff_forall_ne_some]
    intro row hzero
    obtain ⟨hlow, hhigh⟩ := rowOf_inside h hzero
    refine hnone ⟨row.toNat, by omega⟩ ?_
    rw [hzero, Int.toNat_of_nonneg hlow]
  · intro hnone r
    simp [hnone]

/-- The printed grid at zoom one, with zero a quarter of a row above it. -/
def underZero : Projection ℚ := ⟨80, 20, 5, 1, 0, -41 / 20⟩

/-- Zero a quarter of a row above the grid has the first row, and the axis is drawn there. -/
theorem drawAxes_horizontal_underZero :
    0 < underZero.height ∧ underZero.rowOf 0 = some 0 ∧
    Canvas.IsAxisRow underZero.axisRow (0 : Fin 20) := by
  have hheight : 0 < underZero.height := by decide
  have hrow : underZero.rowOf 0 = some 0 := by decide +kernel
  exact ⟨hheight, hrow, ((drawAxes_horizontal hheight).2.1 (0 : Fin 20)).2 hrow⟩

end Projection

end ZeroCurve

import ZeroCurve.Proofs.Projection.Axis

/-!
# The order and the spread of rows

In exact arithmetic the rows keep the order of the ordinates, higher ones first: positions are cut
off toward zero, and this is monotone, although it rounds down below the upper edge of the grid and
up above it. Zooming in takes a position away from the middle row, and out of the grid but never
back.
-/

namespace ZeroCurve.Projection

variable {p : Projection ℚ} {y y' z z' : ℚ} {row row' : Int}

theorem rowPosition_le_of_le (h : 0 < p.scale * p.zoom) (hle : y ≤ y') :
    p.rowPosition y' ≤ p.rowPosition y := by
  rw [rowPosition_eq, rowPosition_eq]
  exact sub_le_sub_left (mul_le_mul_of_nonneg_right (sub_le_sub_right hle _) h.le) _

theorem row_le_of_le (h : 0 < p.scale * p.zoom) (hle : y ≤ y') (hrow : p.rowOf y = some row)
    (hrow' : p.rowOf y' = some row') : row' ≤ row := by
  rw [rowOf_eq_some_iff] at hrow hrow'
  rw [← hrow.2, ← hrow'.2]
  exact Exact.trunc_mono (rowPosition_le_of_le h hle)

theorem rowOf_eq_none_iff :
    p.rowOf y = none ↔ p.rowPosition y ∉ Set.Ioo (-1 : ℚ) p.height := by
  constructor
  · intro hnone hgrid
    have hsome := (rowOf_eq_some_iff p).2 ⟨hgrid, rfl⟩
    rw [hnone] at hsome
    cases hsome
  · intro hoff
    rw [Option.eq_none_iff_forall_ne_some]
    intro row hrow
    exact hoff ((rowOf_eq_some_iff p).1 hrow).1

/-- The same window at another zoom. -/
def atZoom (p : Projection ℚ) (zoom : ℚ) : Projection ℚ := { p with zoom }

/-- The middle of the grid. -/
def middleRow (p : Projection ℚ) : Int := p.height / 2

section Zoom

variable (hoffset : p.yOffset = 0) (hscale : 0 < p.scale) (hz : 0 < z) (hle : z ≤ z')
include hoffset hscale hz hle

/-- Zooming in takes a position further away from the middle, on the same side. -/
theorem rowPosition_mem_uIcc (y : ℚ) :
    (p.atZoom z).rowPosition y ∈ Set.uIcc (p.middleRow : ℚ) ((p.atZoom z').rowPosition y) := by
  have hposition : ∀ z, (p.atZoom z).rowPosition y = p.middleRow - y * (p.scale * z) := by
    intro z
    rw [rowPosition_eq]
    show _ - (y - p.yOffset) * (p.scale * z) = _
    rw [hoffset, sub_zero]
    rfl
  have hpos : 0 ≤ p.scale * z := (mul_pos hscale hz).le
  have hgrow : p.scale * z ≤ p.scale * z' := mul_le_mul_of_nonneg_left hle hscale.le
  rw [hposition, hposition, Set.mem_uIcc]
  rcases le_total 0 y with hy | hy
  · exact .inr ⟨sub_le_sub_left (mul_le_mul_of_nonneg_left hgrow hy) _,
      sub_le_self _ (mul_nonneg hy hpos)⟩
  · refine .inl ⟨?_, sub_le_sub_left (mul_le_mul_of_nonpos_left hgrow hy) _⟩
    have hbelow : y * (p.scale * z) ≤ 0 := mul_nonpos_of_nonpos_of_nonneg hy hpos
    linarith

theorem abs_row_sub_middleRow_le (hrow : (p.atZoom z).rowOf y = some row)
    (hrow' : (p.atZoom z').rowOf y = some row') :
    |row - p.middleRow| ≤ |row' - p.middleRow| := by
  rw [rowOf_eq_some_iff] at hrow hrow'
  rw [← hrow.2, ← hrow'.2]
  exact Exact.abs_trunc_sub_le (rowPosition_mem_uIcc hoffset hscale hz hle y)

/-- The middle is on the grid, so a position between it and one on the grid is on it as well. -/
theorem rowOf_eq_none_of_le (hheight : 1 ≤ p.height) (hoff : (p.atZoom z).rowOf y = none) :
    (p.atZoom z').rowOf y = none := by
  rw [rowOf_eq_none_iff] at hoff ⊢
  intro hgrid
  have hmiddle : (p.middleRow : ℚ) ∈ Set.Ioo (-1 : ℚ) p.height := by
    constructor
    · exact_mod_cast (by unfold middleRow; omega : -1 < p.middleRow)
    · exact_mod_cast (by unfold middleRow; omega : p.middleRow < p.height)
  exact hoff (Set.ordConnected_Ioo.uIcc_subset hmiddle hgrid
    (rowPosition_mem_uIcc hoffset hscale hz hle y))

end Zoom

/-- Higher ordinates have rows further up. Around the ordinate zero, zooming in never brings the row
of an ordinate nearer to the middle, and never brings an ordinate back onto the grid. -/
theorem rowOf_orders_and_spreads (hscale : 0 < p.scale) (hheight : 1 ≤ p.height) :
    (0 < p.zoom → ∀ y y' row row', y ≤ y' → p.rowOf y = some row → p.rowOf y' = some row' →
      row' ≤ row) ∧
    (p.yOffset = 0 → ∀ z z' y, 0 < z → z ≤ z' →
      (∀ row row', (p.atZoom z).rowOf y = some row → (p.atZoom z').rowOf y = some row' →
        |row - p.height / 2| ≤ |row' - p.height / 2|) ∧
      ((p.atZoom z).rowOf y = none → (p.atZoom z').rowOf y = none)) := by
  constructor
  · intro hzoom y y' row row' hle hrow hrow'
    exact row_le_of_le (mul_pos hscale hzoom) hle hrow hrow'
  · intro hoffset z z' y hz hle
    constructor
    · intro row row' hrow hrow'
      exact abs_row_sub_middleRow_le hoffset hscale hz hle hrow hrow'
    · exact rowOf_eq_none_of_le hoffset hscale hz hle hheight

/-- On the printed grid one half has a row above that of one tenth, and at zoom two one further from
the middle; three is off the grid at both zooms. -/
theorem rowOf_orders_and_spreads_printed :
    0 < (around 0).scale ∧ 1 ≤ (around 0).height ∧ 0 < (around 0).zoom ∧
    (around 0).yOffset = 0 ∧
    (around 0).rowOf (1 / 10) = some 9 ∧ (around 0).rowOf (1 / 2) = some 7 ∧ (7 : Int) ≤ 9 ∧
    ((around 0).atZoom 2).rowOf (1 / 2) = some 5 ∧ |(7 : Int) - 20 / 2| ≤ |5 - 20 / 2| ∧
    ((around 0).atZoom 1).rowOf 3 = none ∧ ((around 0).atZoom 2).rowOf 3 = none := by
  have hscale : 0 < (around 0).scale := by norm_num [around]
  have hheight : 1 ≤ (around 0).height := by decide
  have hzoom : 0 < (around 0).zoom := by norm_num [around]
  have hlow : (around 0).rowOf (1 / 10) = some 9 := by decide +kernel
  have hhigh : (around 0).rowOf (1 / 2) = some 7 := by decide +kernel
  have hnear : ((around 0).atZoom 2).rowOf (1 / 2) = some 5 := by decide +kernel
  have hoff : ((around 0).atZoom 1).rowOf 3 = none := by decide +kernel
  obtain ⟨horder, hspread⟩ := rowOf_orders_and_spreads hscale hheight
  refine ⟨hscale, hheight, hzoom, rfl, hlow, hhigh, ?_, hnear, ?_, hoff, ?_⟩
  · exact horder hzoom (1 / 10) (1 / 2) 9 7 (by norm_num) hlow hhigh
  · exact (hspread rfl 1 2 (1 / 2) one_pos one_le_two).1 7 5 hhigh hnear
  · exact (hspread rfl 1 2 3 one_pos one_le_two).2 hoff

end ZeroCurve.Projection

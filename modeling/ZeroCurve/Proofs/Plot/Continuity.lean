import ZeroCurve.Proofs.Plot.ClosedForm
import ZeroCurve.Proofs.Scalar.Whole
import ZeroCurve.Proofs.Segment.Chain

/-!
# Branches are continuous

A branch of a curve is not torn in the picture: from the last row that a guess found before a column
a chain of marked cells leads to every row that it finds in the column. The marks need not be points
of the curve, since the line does not cover an axis.
-/

namespace ZeroCurve

/-- Whether the cell lies on the grid and is not blank there. -/
def Canvas.Shows {width height : Nat} (g : Canvas width height) (cell : Cell) : Prop :=
  ∃ (r : Fin height) (c : Fin width), cell = ⟨r, c⟩ ∧ g.get r c ≠ blank

/-- Whether a chain of cells that are not blank joins the two. -/
def Canvas.Connects {width height : Nat} (g : Canvas width height) (a b : Cell) : Prop :=
  ∃ chain, a.Joins b chain ∧ ∀ cell ∈ chain, g.Shows cell

/-- What has been touched is not blank. -/
theorem Touch.get_foldl_draw_ne_blank {width height : Nat} {touches : List Touch}
    (g : Canvas width height) {r : Fin height} {c : Fin width}
    (h : .cover ⟨r, c⟩ ∈ touches ∨ .fill ⟨r, c⟩ ∈ touches) :
    (touches.foldl draw g).get r c ≠ Canvas.blank := by
  rw [get_foldl_draw]
  split
  · decide
  next hnot =>
    intro hblank
    exact hnot (h.imp_right fun hfill => ⟨hblank, hfill⟩)

theorem Projection.rowOf_mem {p : Projection Float} (hheight : 0 < p.height) {y : Float} {row : Int}
    (h : p.rowOf y = some row) : 0 ≤ row ∧ row < p.height := by
  unfold rowOf at h
  dsimp only at h
  split at h
  next hplace =>
    cases h
    exact ⟨Double.trunc_nonneg_of_neg_one_lt hplace.1, Double.trunc_lt_of_lt_ofInt hheight hplace.2⟩
  next => cases h

namespace Plot

/-- The rows that are found are rows of the grid. -/
theorem found_mem {p : Plot Float} {f : Float → Float → Float} (hheight : 0 < p.height)
    {number column : Nat} {row : Int} (h : row ∈ p.found f number column) :
    0 ≤ row ∧ row < p.height := by
  obtain ⟨y, -, -, hy⟩ := mem_found_iff.1 h
  have hpos : 0 < p.projection.height := by
    unfold height at hheight
    omega
  have := Projection.rowOf_mem hpos hy
  unfold height
  omega

theorem found_mem_of_isPrevious {p : Plot Float} {f : Float → Float → Float}
    (hheight : 0 < p.height) {number column : Nat} {last : Int}
    (h : Trace.IsPrevious (p.found f number) column last) : 0 ≤ last ∧ last < p.height := by
  obtain ⟨earlier, -, hlast, -⟩ := h
  exact found_mem hheight (List.mem_of_getLast? hlast)

/-- The picture of a plot shows the whole line from a carried row to a row that is found. -/
theorem connects_of_isPrevious {p : Plot Float} {f : Float → Float → Float}
    (hheight : 0 < p.height) {number column : Nat} {last row : Int}
    (hnumber : number < p.guesses.toNat) (hcolumn : column < p.width)
    (hlast : Trace.IsPrevious (p.found f number) column last)
    (hrow : row ∈ p.found f number column) :
    (((List.range p.guesses.toNat).map (p.traceOf f)).foldl Trace.draw p.axes).Connects
      ⟨last, (column : Int) - 1⟩ ⟨row, column⟩ := by
  refine ⟨_, Segment.joins_path ⟨⟨last, (column : Int) - 1⟩, ⟨row, column⟩⟩, fun cell hcell => ?_⟩
  have hjoins := Segment.joins_path ⟨⟨last, (column : Int) - 1⟩, ⟨row, column⟩⟩
  have hrows := hjoins.row_mem cell hcell
  have hcolumns := hjoins.column_mem cell hcell
  have hfirst := found_mem_of_isPrevious hheight hlast
  have hnext := found_mem hheight hrow
  have hpositive : 0 < column := by
    obtain ⟨earlier, hlt, -⟩ := hlast
    exact Nat.zero_lt_of_lt hlt
  dsimp only at hrows hcolumns
  -- both ends are on the grid and the chain stays in their box, so no cell of it is clipped
  obtain ⟨r, hr⟩ : ∃ r : Fin p.height, (r : Int) = cell.row :=
    ⟨⟨cell.row.toNat, by omega⟩, Int.toNat_of_nonneg (by omega)⟩
  obtain ⟨c, hc⟩ : ∃ c : Fin p.width, (c : Int) = cell.column :=
    ⟨⟨cell.column.toNat, by omega⟩, Int.toNat_of_nonneg (by omega)⟩
  have hplace : cell = ⟨r, c⟩ := by rw [hr, hc]
  have hline : p.HasLine f r c := by
    rw [hplace] at hcell
    exact ⟨number, hnumber, column, hcolumn, last, row, hlast, hrow, hcell⟩
  refine ⟨r, c, hplace, ?_⟩
  rw [Trace.foldl_draw_eq]
  exact Touch.get_foldl_draw_ne_blank _ (.inr (fill_mem_touches.2 hline))

/-- A plot without division by zero has a picture in which every guess is joined across the columns:
from the last row that it found before a column to all that it finds in the column, and so from the
last row of one column to all rows of the next. -/
theorem connects_render (p : Plot Float) (f : Float → Float → Float) (h : p.IsDefined f)
    (hheight : 0 < p.height) :
    ∃ g, p.render f = .ok g ∧ ∀ number < p.guesses.toNat,
      (∀ column < p.width, (∃ earlier < column, p.found f number earlier ≠ []) →
        ∃ last, Trace.IsPrevious (p.found f number) column last ∧
          ∀ row ∈ p.found f number column,
            g.Connects ⟨last, (column : Int) - 1⟩ ⟨row, column⟩) ∧
      (∀ column, column + 1 < p.width → ∀ last, (p.found f number column).getLast? = some last →
        ∀ row ∈ p.found f number (column + 1),
          g.Connects ⟨last, column⟩ ⟨row, (column : Int) + 1⟩) := by
  refine ⟨_, by rw [render, traces_eq h]; rfl, fun number hnumber => ⟨?_, ?_⟩⟩
  · intro column hcolumn hearlier
    obtain ⟨last, hlast⟩ := Trace.exists_isPrevious hearlier
    exact ⟨last, hlast, fun row hrow =>
      connects_of_isPrevious hheight hnumber hcolumn hlast hrow⟩
  · intro column hcolumn last hlast row hrow
    have hprevious : Trace.IsPrevious (p.found f number) (column + 1) last :=
      Trace.isPrevious_succ.2 (.inl hlast)
    have hconnects := connects_of_isPrevious hheight hnumber hcolumn hprevious hrow
    rw [Int.natCast_add, Int.natCast_one, Int.add_sub_cancel] at hconnects
    exact hconnects

/-- In the picture of `y = 5 x` the guess goes from row 10 in the middle column to row 5. -/
theorem connects_render_steepLine :
    steepLine.IsDefined (fun x y => y - 5.0 * x) ∧ 0 < steepLine.height ∧
    ∃ g, steepLine.render (fun x y => y - 5.0 * x) = .ok g ∧
      g.Connects ⟨10, 2⟩ ⟨5, 3⟩ := by
  have hdefined : steepLine.IsDefined (fun x y => y - 5.0 * x) := by decide +kernel
  have hheight : 0 < steepLine.height := by decide
  obtain ⟨g, hrender, hconnects⟩ := connects_render steepLine (fun x y => y - 5.0 * x) hdefined hheight
  refine ⟨hdefined, hheight, g, hrender, ?_⟩
  exact (hconnects 0 (by decide)).2 2 (by decide) 10 (by decide +kernel) 5 (by decide +kernel)

end Plot

end ZeroCurve

import ZeroCurve.Proofs.Plot.ClosedForm
import ZeroCurve.Proofs.Projection.Rows

/-!
# Points inside the grid

A point of a plot is written without a look at the bounds of the grid. In exact arithmetic it is in
the grid, whatever the function and the settings are, as long as the grid has a row. For a grid
without rows an ordinate less than one row above it still has a row, and its point is outside.
-/

namespace ZeroCurve.Plot

section

variable {α : Type} {p : Plot α} {column : Nat}

theorem exists_cell_iff (hcolumn : column < p.width) {row : Int} :
    (∃ (r : Fin p.height) (c : Fin p.width), (⟨row, column⟩ : Cell) = ⟨r, c⟩) ↔
      0 ≤ row ∧ row < p.projection.height := by
  constructor
  · rintro ⟨r, c, hcell⟩
    cases hcell
    have hr : (r : Nat) < p.projection.height.toNat := r.isLt
    omega
  · rintro ⟨hlow, hhigh⟩
    have hr : row.toNat < p.height := by
      show row.toNat < p.projection.height.toNat
      omega
    refine ⟨⟨row.toNat, hr⟩, ⟨column, hcolumn⟩, ?_⟩
    rw [Int.toNat_of_nonneg hlow]

variable [Scalar α]

/-- Whether each point that a guess has in a column is in a cell of the grid. -/
def IsInside (p : Plot α) (f : α → α → α) : Prop :=
  ∀ number < p.guesses.toNat, ∀ column < p.width, ∀ row ∈ p.found f number column,
    ∃ (r : Fin p.height) (c : Fin p.width), (⟨row, column⟩ : Cell) = ⟨r, c⟩

variable {f : α → α → α}

theorem point_mem_strokes {number : Nat} {cell : Cell} :
    .point cell ∈ (p.traceOf f number).strokes ↔
      ∃ column < p.width, cell.column = (column : Int) ∧ cell.row ∈ p.found f number column := by
  rw [Trace.mem_strokes]
  constructor
  · rintro ⟨column, row, hrow, hpoint | ⟨last, -, hline⟩⟩
    · cases hpoint
      obtain ⟨hcolumn, hrow⟩ := mem_rowsAt_traceOf.1 hrow
      exact ⟨column, hcolumn, rfl, hrow⟩
    · cases hline
  · rintro ⟨column, hcolumn, heq, hrow⟩
    refine ⟨column, cell.row, mem_rowsAt_traceOf.2 ⟨hcolumn, hrow⟩, .inl ?_⟩
    rw [← heq]

/-- The points that are drawn are those that the guesses have in the columns. -/
theorem isInside_iff_of_traces {ts : List Trace} (h : p.traces f = .ok ts) :
    p.IsInside f ↔ ∀ t ∈ ts, ∀ cell, .point cell ∈ t.strokes →
      ∃ (r : Fin p.height) (c : Fin p.width), cell = ⟨r, c⟩ := by
  rw [traces_eq_of_ok h, List.forall_mem_map]
  simp only [List.mem_range, point_mem_strokes]
  constructor
  · rintro hinside number hnumber ⟨row, -⟩ ⟨column, hcolumn, rfl, hrow⟩
    exact hinside number hnumber column hcolumn row hrow
  · intro hpoints number hnumber column hcolumn row hrow
    exact hpoints number hnumber ⟨row, column⟩ ⟨column, hcolumn, rfl, hrow⟩

end

variable {p : Plot ℚ} {f : ℚ → ℚ → ℚ}

/-- All points are inside just if no ordinate is found less than one row above a grid without
rows. -/
theorem isInside_iff_not_isAboveNothing (h : 0 ≤ p.projection.height) :
    p.IsInside f ↔ ∀ number < p.guesses.toNat, ∀ column < p.width, ∀ y,
      p.FindsAt f number column y → ¬ p.projection.IsAboveNothing y := by
  refine forall₂_congr fun number _ => forall₂_congr fun column hcolumn => ?_
  simp only [exists_cell_iff hcolumn, mem_found_iff, ← Projection.forall_rowOf_inside_iff h]
  constructor
  · intro hinside y hy row hrow
    exact hinside row ⟨y, hy, rfl, hrow⟩
  · rintro hrows row ⟨y, hy, -, hrow⟩
    exact hrows y hy row hrow

/-- A row that an ordinate has is one of the grid, but for ordinates less than one row above a grid
without rows, which have row zero. So a point is written outside just if such an ordinate is found,
and never on a grid with rows. -/
theorem isInside_iff_found (p : Plot ℚ) (f : ℚ → ℚ → ℚ) (h : 0 ≤ p.projection.height) :
    (∀ y, (∀ row, p.projection.rowOf y = some row → 0 ≤ row ∧ row < p.projection.height) ↔
      ¬ p.projection.IsAboveNothing y) ∧
    (∀ y, p.projection.IsAboveNothing y → p.projection.rowOf y = some 0) ∧
    (p.IsInside f ↔ ∀ number < p.guesses.toNat, ∀ column < p.width, ∀ y,
      p.FindsAt f number column y → ¬ p.projection.IsAboveNothing y) ∧
    (0 < p.projection.height → p.IsInside f) ∧
    ∀ ts, p.traces f = .ok ts → (p.IsInside f ↔ ∀ t ∈ ts, ∀ cell, .point cell ∈ t.strokes →
      ∃ (r : Fin p.height) (c : Fin p.width), cell = ⟨r, c⟩) := by
  refine ⟨fun y => Projection.forall_rowOf_inside_iff h, ?_, isInside_iff_not_isAboveNothing h, ?_,
    fun ts hts => isInside_iff_of_traces hts⟩
  · intro y habove
    exact (Projection.rowOf_eq_some_iff_of_height habove.1).2 ⟨rfl, habove⟩
  · intro hpos
    refine (isInside_iff_not_isAboveNothing h).2 ?_
    exact fun number _ column _ y _ habove => hpos.ne' habove.1

/-- One guess for the line `y = 1 / 10`, on a grid of one column and this many rows. -/
def lowLine (height : Int) : Plot ℚ where
  projection := ⟨1, height, 5, 1, 0, 0⟩
  newton := ⟨none, 10, 1 / 1000, 1, 1⟩
  window := (0, 0)
  guesses := 1
  samples := 1

/-- On three rows the line has its point in the first one. -/
theorem isInside_iff_found_lowLine :
    0 ≤ (lowLine 3).projection.height ∧
    (lowLine 3).found (fun _ y => y - 1 / 10) 0 0 = [0] ∧
    (lowLine 3).IsInside (fun _ y => y - 1 / 10) := by
  have hheight : 0 ≤ (lowLine 3).projection.height := by decide
  refine ⟨hheight, by decide +kernel, ?_⟩
  exact (isInside_iff_found (lowLine 3) _ hheight).2.2.2.1 (by decide)

/-- A grid without rows has no row for the line, half a row above it, and still gets a point in
row zero. -/
theorem not_isInside_lowLine :
    (lowLine 0).projection.height = 0 ∧
    (lowLine 0).projection.rowOf (1 / 10) = some 0 ∧
    (0 : Int) ∈ (lowLine 0).found (fun _ y => y - 1 / 10) 0 0 ∧
    ¬ (lowLine 0).IsInside (fun _ y => y - 1 / 10) := by
  have hfound : (0 : Int) ∈ (lowLine 0).found (fun _ y => y - 1 / 10) 0 0 := by decide +kernel
  refine ⟨rfl, by decide +kernel, hfound, ?_⟩
  intro hinside
  obtain ⟨r, -⟩ := hinside 0 (by decide) 0 (by decide) 0 hfound
  exact r.elim0

end ZeroCurve.Plot

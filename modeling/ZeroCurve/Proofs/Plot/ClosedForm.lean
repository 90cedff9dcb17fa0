import ZeroCurve.Plot
import ZeroCurve.Proofs.List.Traversal
import ZeroCurve.Proofs.Trace.Carried
import ZeroCurve.Scalar.Double

/-!
# The closed form of a picture

What each cell of a picture holds, in terms of the rows that the guesses find in the columns. A cell
has a point of a curve if some guess has it there, or if its axis mark is a blank and it lies on a
line from a carried row to a point. Any other cell has its axis mark.
-/

namespace ZeroCurve.Plot

variable {α : Type} [Scalar α] (p : Plot α) (f : α → α → α)

/-- Whether no sample of the plot divides by zero. -/
def IsDefined : Prop :=
  ∀ number < p.guesses.toNat, ∀ column < p.width, ∀ sample < p.samples.toNat,
    (p.sampleRow f (p.guess number) column sample).toBool = true

instance : Decidable (p.IsDefined f) :=
  inferInstanceAs (Decidable (∀ number < p.guesses.toNat, ∀ column < p.width,
    ∀ sample < p.samples.toNat, _ = true))

/-- The row of a guess at a sample, if there is one. -/
def foundAt (number column sample : Nat) : Option Int :=
  match p.sampleRow f (p.guess number) column sample with
  | .ok row => row
  | .error _ => none

/-- The rows of a guess in a column, in the order of the samples. -/
def found (number column : Nat) : List Int :=
  (List.range p.samples.toNat).filterMap (p.foundAt f number column)

/-- Whether a guess finds this ordinate at a sample of a column. -/
def FindsAt (number column : Nat) (y : α) : Prop :=
  ∃ sample < p.samples.toNat, ∃ x, p.projection.columnX column sample p.samples = .ok x ∧
    p.newton.solve (f x) (p.guess number) = .ok (some y)

/-- The mark of an axis at a cell, the vertical axis over the horizontal one, or a blank. -/
def axisAt (r c : Nat) : UInt8 :=
  if p.projection.axisColumn = some (c : Int) then Canvas.axisMark Canvas.axisBar r
  else if p.projection.axisRow = some (r : Int) then Canvas.axisMark Canvas.axisDash c
  else Canvas.blank

/-- Whether some guess has a point in the cell. -/
def HasPoint (r c : Nat) : Prop :=
  ∃ number < p.guesses.toNat, (r : Int) ∈ p.found f number c

/-- Whether the cell is on a line of some guess, from the last row of its latest earlier column that
has rows to a row of a column. -/
def HasLine (r c : Nat) : Prop :=
  ∃ number < p.guesses.toNat, ∃ column < p.width, ∃ last row : Int,
    Trace.IsPrevious (p.found f number) column last ∧ row ∈ p.found f number column ∧
      (⟨r, c⟩ : Cell) ∈ Segment.path ⟨⟨last, (column : Int) - 1⟩, ⟨row, column⟩⟩

/-- The trace of a guess, put together from its columns. -/
def traceOf (number : Nat) : Trace := (List.range p.width).map (p.found f number)

variable {p f}

theorem sampleRow_eq_some_iff {start : α} {column sample : Nat} {row : Int} :
    p.sampleRow f start column sample = .ok (some row) ↔
      ∃ x, p.projection.columnX column sample p.samples = .ok x ∧
        ∃ y, p.newton.solve (f x) start = .ok (some y) ∧ Newton.isSolution y = true ∧
          p.projection.rowOf y = some row := by
  unfold sampleRow
  cases hx : p.projection.columnX column sample p.samples with
  | error fault => simp [bind, Except.bind]
  | ok x =>
    cases hy : p.newton.solve (f x) start with
    | error fault => simp [bind, Except.bind, hy]
    | ok found =>
      cases found with
      | none => simp [bind, Except.bind, hy, pure, Except.pure]
      | some y =>
        cases hsolution : Newton.isSolution y <;>
          simp [bind, Except.bind, hy, pure, Except.pure, hsolution]

theorem foundAt_eq_some_iff {number column sample : Nat} {row : Int} :
    p.foundAt f number column sample = some row ↔
      p.sampleRow f (p.guess number) column sample = .ok (some row) := by
  unfold foundAt
  cases p.sampleRow f (p.guess number) column sample <;> simp

/-- The rows of a guess in a column are those of the ordinates that it finds there. -/
theorem mem_found_iff {number column : Nat} {row : Int} :
    row ∈ p.found f number column ↔
      ∃ y, p.FindsAt f number column y ∧ Newton.isSolution y = true ∧
        p.projection.rowOf y = some row := by
  rw [found, List.mem_filterMap]
  simp only [foundAt_eq_some_iff, sampleRow_eq_some_iff, List.mem_range]
  constructor
  · rintro ⟨sample, hsample, x, hx, y, hy, hrow⟩
    exact ⟨y, ⟨sample, hsample, x, hx, hy⟩, hrow⟩
  · rintro ⟨y, ⟨sample, hsample, x, hx, hy⟩, hrow⟩
    exact ⟨sample, hsample, x, hx, y, hy, hrow⟩

theorem sampleRow_eq (h : p.IsDefined f) {number column sample : Nat}
    (hnumber : number < p.guesses.toNat) (hcolumn : column < p.width)
    (hsample : sample < p.samples.toNat) :
    p.sampleRow f (p.guess number) column sample = .ok (p.foundAt f number column sample) := by
  have hok := h number hnumber column hcolumn sample hsample
  unfold foundAt
  cases hrow : p.sampleRow f (p.guess number) column sample with
  | ok row => rfl
  | error fault =>
    rw [hrow] at hok
    cases hok

theorem columnRows_eq (h : p.IsDefined f) {number column : Nat}
    (hnumber : number < p.guesses.toNat) (hcolumn : column < p.width) :
    p.columnRows f (p.guess number) column = .ok (p.found f number column) :=
  List.filterMapM_ok fun _ hsample => sampleRow_eq h hnumber hcolumn (List.mem_range.1 hsample)

theorem trace_eq (h : p.IsDefined f) {number : Nat} (hnumber : number < p.guesses.toNat) :
    p.trace f (p.guess number) = .ok (p.traceOf f number) :=
  List.mapM_ok fun _ hcolumn => columnRows_eq h hnumber (List.mem_range.1 hcolumn)

theorem traces_eq (h : p.IsDefined f) :
    p.traces f = .ok ((List.range p.guesses.toNat).map (p.traceOf f)) :=
  List.mapM_ok fun _ hnumber => trace_eq h (List.mem_range.1 hnumber)

/-- A plot has a picture only if no sample divides by zero. -/
theorem isDefined_of_render {g : Canvas p.width p.height} (h : p.render f = .ok g) :
    p.IsDefined f := by
  intro number hnumber column hcolumn sample hsample
  obtain ⟨traces, htraces⟩ : ∃ traces, p.traces f = .ok traces := by
    cases htraces : p.traces f with
    | ok traces => exact ⟨traces, rfl⟩
    | error fault =>
      rw [render, htraces] at h
      cases h
  obtain ⟨trace, htrace⟩ := List.ok_of_mapM_ok htraces number (List.mem_range.2 hnumber)
  obtain ⟨rows, hrows⟩ := List.ok_of_mapM_ok htrace column (List.mem_range.2 hcolumn)
  obtain ⟨row, hrow⟩ := List.ok_of_filterMapM_ok hrows sample (List.mem_range.2 hsample)
  rw [hrow]
  rfl

/-- So a plot has a picture if and only if its samples divide by no zero. -/
theorem isDefined_iff : p.IsDefined f ↔ ∃ g, p.render f = .ok g :=
  ⟨fun h => ⟨_, by rw [render, traces_eq h]; rfl⟩, fun ⟨_, h⟩ => isDefined_of_render h⟩

theorem traces_eq_of_ok {ts : List Trace} (h : p.traces f = .ok ts) :
    ts = (List.range p.guesses.toNat).map (p.traceOf f) := by
  have hdefined : p.IsDefined f := isDefined_iff.2 ⟨_, by rw [render, h]; rfl⟩
  exact Except.ok.inj (h.symm.trans (traces_eq hdefined))

theorem rowsAt_traceOf {number column : Nat} :
    (p.traceOf f number).rowsAt column =
      if column < p.width then p.found f number column else [] := by
  unfold Trace.rowsAt traceOf
  rw [List.getElem?_map]
  split
  next h => rw [List.getElem?_range h]; rfl
  next h => rw [List.getElem?_eq_none (by simpa using h)]; rfl

theorem mem_rowsAt_traceOf {number column : Nat} {row : Int} :
    row ∈ (p.traceOf f number).rowsAt column ↔
      column < p.width ∧ row ∈ p.found f number column := by
  rw [rowsAt_traceOf]
  split <;> simp [*]

theorem isPrevious_traceOf {number column : Nat} (hcolumn : column < p.width) {row : Int} :
    Trace.IsPrevious (p.traceOf f number).rowsAt column row ↔
      Trace.IsPrevious (p.found f number) column row := by
  refine Trace.isPrevious_congr fun earlier hearlier => ?_
  rw [rowsAt_traceOf, if_pos (Nat.lt_trans hearlier hcolumn)]

/-- All touches of a plot. -/
theorem cover_mem_touches {r : Fin p.height} {c : Fin p.width} :
    .cover ⟨r, c⟩ ∈ ((List.range p.guesses.toNat).map (p.traceOf f)).flatMap Trace.touches ↔
      p.HasPoint f r c := by
  rw [List.mem_flatMap]
  constructor
  · rintro ⟨t, ht, hcover⟩
    obtain ⟨number, hnumber, rfl⟩ := List.mem_map.1 ht
    obtain ⟨column, hcolumn, hrow⟩ := Trace.cover_mem_touches.1 hcover
    cases Int.ofNat_inj.1 hcolumn
    exact ⟨number, List.mem_range.1 hnumber, (mem_rowsAt_traceOf.1 hrow).2⟩
  · rintro ⟨number, hnumber, hrow⟩
    refine ⟨p.traceOf f number, List.mem_map.2 ⟨number, List.mem_range.2 hnumber, rfl⟩, ?_⟩
    exact Trace.cover_mem_touches.2 ⟨c, rfl, mem_rowsAt_traceOf.2 ⟨c.isLt, hrow⟩⟩

theorem fill_mem_touches {r : Fin p.height} {c : Fin p.width} :
    .fill ⟨r, c⟩ ∈ ((List.range p.guesses.toNat).map (p.traceOf f)).flatMap Trace.touches ↔
      p.HasLine f r c := by
  rw [List.mem_flatMap]
  constructor
  · rintro ⟨t, ht, hfill⟩
    obtain ⟨number, hnumber, rfl⟩ := List.mem_map.1 ht
    obtain ⟨column, last, row, hlast, hrow, hcell⟩ := Trace.fill_mem_touches.1 hfill
    obtain ⟨hcolumn, hrow⟩ := mem_rowsAt_traceOf.1 hrow
    exact ⟨number, List.mem_range.1 hnumber, column, hcolumn, last, row,
      (isPrevious_traceOf hcolumn).1 hlast, hrow, hcell⟩
  · rintro ⟨number, hnumber, column, hcolumn, last, row, hlast, hrow, hcell⟩
    refine ⟨p.traceOf f number, List.mem_map.2 ⟨number, List.mem_range.2 hnumber, rfl⟩, ?_⟩
    exact Trace.fill_mem_touches.2 ⟨column, last, row, (isPrevious_traceOf hcolumn).2 hlast,
      mem_rowsAt_traceOf.2 ⟨hcolumn, hrow⟩, hcell⟩

theorem get_axes (r : Fin p.height) (c : Fin p.width) : p.axes.get r c = p.axisAt r c := by
  rw [axes, Canvas.get_drawAxes, Canvas.empty, Canvas.get_ofFn]
  rfl

theorem axisMark_cases (other : UInt8) (place : Nat) :
    Canvas.axisMark other place = Canvas.axisCross ∨ Canvas.axisMark other place = other := by
  unfold Canvas.axisMark
  split
  · exact .inl rfl
  · exact .inr rfl

theorem axisAt_mem (r c : Nat) : p.axisAt r c ∈
    [Canvas.blank, Canvas.axisCross, Canvas.axisDash, Canvas.axisBar] := by
  unfold axisAt
  split
  · rcases axisMark_cases Canvas.axisBar r with h | h <;> rw [h] <;> decide
  split
  · rcases axisMark_cases Canvas.axisDash c with h | h <;> rw [h] <;> decide
  · decide

theorem axisAt_ne_curve (r c : Nat) : p.axisAt r c ≠ Canvas.curve := by
  intro h
  have hmark := axisAt_mem (p := p) r c
  rw [h] at hmark
  revert hmark
  decide

/-- A plot without division by zero has a picture, in ASCII. -/
theorem render_ok (h : p.IsDefined f) : ∃ g, p.render f = .ok g ∧ ∀ r c, g.get r c < 128 := by
  refine ⟨_, by rw [render, traces_eq h]; rfl, fun r c => ?_⟩
  rw [Trace.foldl_draw_eq, Touch.get_foldl_draw, get_axes]
  split
  · decide
  · have hmark := axisAt_mem (p := p) r c
    simp only [List.mem_cons, List.not_mem_nil, or_false] at hmark
    rcases hmark with h | h | h | h <;> rw [h] <;> decide

/-- A plot without division by zero has a picture, and this is what its cells hold. -/
theorem get_render (p : Plot α) (f : α → α → α) (h : p.IsDefined f) :
    ∃ g, p.render f = .ok g ∧ ∀ r c,
      (g.get r c = Canvas.curve ↔
        p.HasPoint f r c ∨ (p.axisAt r c = Canvas.blank ∧ p.HasLine f r c)) ∧
      (g.get r c ≠ Canvas.curve → g.get r c = p.axisAt r c) ∧
      g.get r c ∈ [Canvas.blank, Canvas.curve, Canvas.axisCross, Canvas.axisDash,
        Canvas.axisBar] := by
  refine ⟨_, by rw [render, traces_eq h]; rfl, fun r c => ?_⟩
  have hpaints : Touch.Paints
      (((List.range p.guesses.toNat).map (p.traceOf f)).flatMap Trace.touches)
      (p.axes.get r c) ⟨r, c⟩ ↔
        p.HasPoint f r c ∨ (p.axisAt r c = Canvas.blank ∧ p.HasLine f r c) := by
    rw [Touch.Paints, cover_mem_touches, fill_mem_touches, get_axes]
  rw [Trace.foldl_draw_eq, Touch.get_foldl_draw, ← hpaints, get_axes]
  split
  next hcurve => exact ⟨iff_of_true rfl hcurve, fun hne => absurd rfl hne, by decide⟩
  next hcurve =>
    refine ⟨iff_of_false (axisAt_ne_curve r c) hcurve, fun _ => rfl, ?_⟩
    have hmark := axisAt_mem (p := p) r c
    simp only [List.mem_cons] at hmark ⊢
    exact hmark.imp_right .inr

/-- One guess on a small grid, for a line that is steeper than the cells are high. -/
def steepLine : Plot Float where
  projection := ⟨4, 20, 5.0, 1.0, 0.0, 0.05⟩
  newton := ⟨none, 10, 0.001, 0.5, 1.0⟩
  window := (0.0, 0.0)
  guesses := 1
  samples := 1

/-- The picture of `y = 5 x` has a point, a cell on a line and an axis mark that a line crosses. -/
theorem get_render_steepLine :
    steepLine.IsDefined (fun x y => y - 5.0 * x) ∧
    ∃ g, steepLine.render (fun x y => y - 5.0 * x) = .ok g ∧
      g.get ⟨15, by decide⟩ ⟨1, by decide⟩ = Canvas.curve ∧
      g.get ⟨7, by decide⟩ ⟨3, by decide⟩ = Canvas.curve ∧
      g.get ⟨8, by decide⟩ ⟨2, by decide⟩ = Canvas.axisCross := by
  have hdefined : steepLine.IsDefined (fun x y => y - 5.0 * x) := by decide +kernel
  obtain ⟨g, hrender, hget⟩ := get_render steepLine (fun x y => y - 5.0 * x) hdefined
  refine ⟨hdefined, g, hrender, ?_, ?_, ?_⟩
  · exact (hget _ _).1.2 (.inl ⟨0, by decide, by decide +kernel⟩)
  · refine (hget _ _).1.2 (.inr ⟨by decide, 0, by decide, 3, by decide, 10, 5, ?_, ?_, by decide⟩)
    · exact ⟨2, by decide, by decide +kernel, fun between hb hb' => by omega⟩
    · decide +kernel
  · refine (hget _ _).2.1 fun hcurve => ?_
    rcases (hget _ _).1.1 hcurve with ⟨number, hnumber, hrow⟩ | ⟨hblank, -⟩
    · cases Nat.lt_one_iff.1 hnumber
      revert hrow
      decide +kernel
    · revert hblank
      decide

end ZeroCurve.Plot

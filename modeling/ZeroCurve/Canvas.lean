import ZeroCurve.Segment

/-!
# Canvas

A grid of characters of a fixed size, kept as their codes. Axes are drawn first; a point of a curve
then covers whatever its cell holds, while the line that joins two points only fills blanks, so axes
stay visible. What lies off the grid is left out.
-/

namespace ZeroCurve

/-- A grid of character codes. -/
structure Canvas (width height : Nat) where
  rows : Vector (Vector UInt8 width) height
deriving DecidableEq, Repr

namespace Canvas

variable {width height : Nat}

/-- An empty cell. -/
def blank : UInt8 := 32

/-- A point of a curve, an asterisk. -/
def curve : UInt8 := 42

/-- A plus sign on an axis. -/
def axisCross : UInt8 := 43

/-- A hyphen on the horizontal axis. -/
def axisDash : UInt8 := 45

/-- A bar on the vertical axis. -/
def axisBar : UInt8 := 124

/-- The canvas with the given cells, by row and column. -/
def ofFn (cell : Fin height → Fin width → UInt8) : Canvas width height :=
  ⟨Vector.ofFn fun r => Vector.ofFn fun c => cell r c⟩

/-- The content of a cell. -/
def get (g : Canvas width height) (r : Fin height) (c : Fin width) : UInt8 := g.rows[r][c]

/-- The canvas with one cell replaced. -/
def set (g : Canvas width height) (r : Fin height) (c : Fin width) (b : UInt8) :
    Canvas width height :=
  ⟨g.rows.set r (g.rows[r].set c b)⟩

/-- The row and column of a cell that lies on the grid. -/
def locate? (cell : Cell) : Option (Fin height × Fin width) :=
  if h : 0 ≤ cell.row ∧ 0 ≤ cell.column ∧ cell.row < height ∧ cell.column < width then
    some (⟨cell.row.toNat, by omega⟩, ⟨cell.column.toNat, by omega⟩)
  else none

/-- A blank canvas. -/
def empty : Canvas width height := ofFn fun _ _ => blank

/-- The marks of an axis: plus signs at even places and `other` between. -/
def axisMark (other : UInt8) (place : Nat) : UInt8 := if place % 2 = 0 then axisCross else other

/-- The canvas with a horizontal axis in one row and, over it, a vertical one in one column, as far
as there are such a row and such a column. -/
def drawAxes (g : Canvas width height) (axisRow axisColumn : Option Int) : Canvas width height :=
  ofFn fun r c =>
    if axisColumn = some (c : Int) then axisMark axisBar r
    else if axisRow = some (r : Int) then axisMark axisDash c
    else g.get r c

/-- The canvas with a point of a curve. -/
def mark (g : Canvas width height) (cell : Cell) : Canvas width height :=
  match locate? cell with
  | some (r, c) => g.set r c curve
  | none => g

/-- The canvas with a point of a curve if the cell was blank. -/
def fill (g : Canvas width height) (cell : Cell) : Canvas width height :=
  match locate? cell with
  | some (r, c) => if g.get r c = blank then g.set r c curve else g
  | none => g

/-- The canvas with the blank cells of a segment filled. -/
def drawSegment (g : Canvas width height) (s : Segment) : Canvas width height :=
  s.path.foldl fill g

@[simp]
theorem get_ofFn (cell : Fin height → Fin width → UInt8) (r : Fin height) (c : Fin width) :
    (ofFn cell).get r c = cell r c := by
  simp [ofFn, get]

theorem get_set (g : Canvas width height) (r r' : Fin height) (c c' : Fin width) (b : UInt8) :
    (g.set r c b).get r' c' = if r = r' ∧ c = c' then b else g.get r' c' := by
  by_cases hr : r = r'
  · subst hr
    by_cases hc : c = c' <;> simp_all [set, get, Fin.ext_iff]
  · have : (r : Nat) ≠ r' := fun h => hr (Fin.ext h)
    simp [set, get, this, hr]

theorem get_drawAxes (g : Canvas width height) (axisRow axisColumn : Option Int) (r : Fin height)
    (c : Fin width) :
    (g.drawAxes axisRow axisColumn).get r c =
      if axisColumn = some (c : Int) then axisMark axisBar r
      else if axisRow = some (r : Int) then axisMark axisDash c
      else g.get r c := by
  rw [drawAxes, get_ofFn]

/-- The row and column of a cell name that cell and no other. -/
theorem locate?_eq_some_iff {cell : Cell} {r : Fin height} {c : Fin width} :
    locate? cell = some (r, c) ↔ cell = ⟨r, c⟩ := by
  obtain ⟨row, column⟩ := cell
  constructor
  · intro h
    unfold locate? at h
    split at h
    next hc =>
      cases h
      rw [Cell.mk.injEq]
      exact ⟨(Int.toNat_of_nonneg hc.1).symm, (Int.toNat_of_nonneg hc.2.1).symm⟩
    next => cases h
  · intro h
    cases h
    have := r.isLt
    have := c.isLt
    simp only [locate?]
    rw [dif_pos (by omega)]
    simp

theorem get_mark (g : Canvas width height) (cell : Cell) (r : Fin height) (c : Fin width) :
    (g.mark cell).get r c = if cell = ⟨r, c⟩ then curve else g.get r c := by
  unfold mark
  split
  next r' c' h =>
    rw [get_set, locate?_eq_some_iff.1 h]
    simp only [Cell.mk.injEq, Int.ofNat_inj, Fin.ext_iff]
  next h =>
    rw [if_neg]
    intro hc
    rw [locate?_eq_some_iff.2 hc] at h
    cases h

theorem get_fill (g : Canvas width height) (cell : Cell) (r : Fin height) (c : Fin width) :
    (g.fill cell).get r c = if cell = ⟨r, c⟩ ∧ g.get r c = blank then curve else g.get r c := by
  unfold fill
  split
  next r' c' h =>
    have hc := locate?_eq_some_iff.1 h
    by_cases hb : g.get r' c' = blank
    · rw [if_pos hb, get_set, hc]
      by_cases hrc : r' = r ∧ c' = c
      · simp [hrc.1 ▸ hrc.2 ▸ hb, hrc]
      · rw [if_neg hrc, if_neg]
        intro hcell
        apply hrc
        simpa [Fin.ext_iff, Int.ofNat_inj] using hcell.1
    · rw [if_neg hb, if_neg]
      rintro ⟨hcell, hblank⟩
      rw [hc] at hcell
      have : r' = r ∧ c' = c := by simpa [Fin.ext_iff, Int.ofNat_inj] using hcell
      exact hb (this.1 ▸ this.2 ▸ hblank)
  next h =>
    rw [if_neg]
    rintro ⟨hc, -⟩
    rw [locate?_eq_some_iff.2 hc] at h
    cases h

theorem ext_get {g g' : Canvas width height} (h : ∀ r c, g.get r c = g'.get r c) : g = g' := by
  obtain ⟨rows⟩ := g
  obtain ⟨rows'⟩ := g'
  have : rows = rows' := Vector.ext fun r hr => Vector.ext fun c hc => h ⟨r, hr⟩ ⟨c, hc⟩
  rw [this]

end Canvas

end ZeroCurve

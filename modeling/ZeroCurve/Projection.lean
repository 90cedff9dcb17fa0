import ZeroCurve.Scalar

/-!
# Plane and grid

How points of the plane and cells of the grid correspond. Rows count from the top and `y` grows
upward. A cell of the grid takes all positions that truncate to its number, so the first row also
takes the positions less than one above it.
-/

namespace ZeroCurve

/-- A window of `width` by `height` cells on the plane, `scale * zoom` cells to the unit, whose
middle cell shows the offset. -/
structure Projection (α : Type) where
  width : Int
  height : Int
  scale : α
  zoom : α
  xOffset : α
  yOffset : α
deriving Repr

namespace Projection

variable {α : Type} [Scalar α]

/-- The whole place of a position, on the grid or not; a position that is not finite has none. -/
def place? (position : α) : Option Int :=
  if Scalar.isFinite position then some (Scalar.trunc position) else none

/-- The column of the vertical axis, on the grid or not. -/
def axisColumn (p : Projection α) : Option Int :=
  place? (Scalar.ofInt (p.width / 2) - p.xOffset * p.scale * p.zoom)

/-- The row of the horizontal axis, on the grid or not. -/
def axisRow (p : Projection α) : Option Int :=
  place? (Scalar.ofInt (p.height / 2) + p.yOffset * p.scale * p.zoom)

/-- The abscissa of the sample number `sub` of `count` in a column. -/
@[inline]
def columnX (p : Projection α) (column sub count : Int) : Except ArithmeticFault α := do
  let part ← Scalar.divide (Scalar.ofInt sub) (Scalar.ofInt count)
  let x ← Scalar.divide (Scalar.ofInt (column - p.width / 2) + part) (p.scale * p.zoom)
  return x + p.xOffset

/-- The position of an ordinate in rows, before it is cut to a whole row. -/
@[inline]
def rowPosition (p : Projection α) (y : α) : α :=
  Scalar.ofInt (p.height / 2) - y * p.scale * p.zoom + p.yOffset * p.scale * p.zoom

/-- The row of an ordinate, if it is on the grid. -/
@[inline]
def rowOf (p : Projection α) (y : α) : Option Int :=
  let position := p.rowPosition y
  if -Scalar.ofInt 1 < position ∧ position < Scalar.ofInt p.height then some (Scalar.trunc position)
  else none

end Projection

end ZeroCurve

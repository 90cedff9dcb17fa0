import ZeroCurve.Canvas

/-!
# Traces

The points that one initial guess finds, column by column, and the strokes that draw them. Every
point of a column is joined to the last point of the latest earlier column that has any, so a trace
is continued across columns without points. The strokes do not depend on what is drawn already.
-/

namespace ZeroCurve

/-- The rows of the points found in each column, in the order of their samples. -/
abbrev Trace := List (List Int)

/-- One stroke of the pen. -/
inductive Stroke where
  | point (cell : Cell)
  | line (segment : Segment)
deriving DecidableEq, Repr

/-- The canvas after a stroke. -/
def Stroke.draw {width height : Nat} (g : Canvas width height) : Stroke → Canvas width height
  | .point cell => g.mark cell
  | .line segment => g.drawSegment segment

namespace Trace

/-- The strokes for a point: its cell, then the line to it from the column before. -/
def pointStrokes (column : Int) (previous : Option Int) (row : Int) : List Stroke :=
  match previous with
  | none => [.point ⟨row, column⟩]
  | some last => [.point ⟨row, column⟩, .line ⟨⟨last, column - 1⟩, ⟨row, column⟩⟩]

/-- The strokes for the columns from `column` on, when `previous` is the last row found before. -/
def strokesFrom (column : Int) (previous : Option Int) : Trace → List Stroke
  | [] => []
  | rows :: rest =>
    rows.flatMap (pointStrokes column previous) ++
      strokesFrom (column + 1) (rows.getLast?.or previous) rest

/-- The strokes of a trace, from the first column on. -/
def strokes (t : Trace) : List Stroke := strokesFrom 0 none t

/-- The canvas after all strokes of a trace. -/
def draw {width height : Nat} (g : Canvas width height) (t : Trace) : Canvas width height :=
  t.strokes.foldl Stroke.draw g

end Trace

end ZeroCurve

/-!
# Segments

The cells of a straight line between two cells, by whole-number steps. An error term keeps account
of how far the pen is from the exact line; each move goes to one of the eight neighbours and brings
the pen one cell nearer along the longer axis, so the number of moves is the longer of the two
distances.
-/

namespace ZeroCurve

/-- A place in an unbounded grid; rows are numbered downward. -/
structure Cell where
  row : Int
  column : Int
deriving DecidableEq, Repr

/-- A line from one cell to another. -/
structure Segment where
  start : Cell
  finish : Cell
deriving DecidableEq, Repr

namespace Segment

/-- The distance in columns. -/
def width (s : Segment) : Nat := (s.finish.column - s.start.column).natAbs

/-- The distance in rows. -/
def height (s : Segment) : Nat := (s.finish.row - s.start.row).natAbs

/-- The column step toward the end. -/
def columnStep (s : Segment) : Int := if s.start.column < s.finish.column then 1 else -1

/-- The row step toward the end. -/
def rowStep (s : Segment) : Int := if s.start.row < s.finish.row then 1 else -1

/-- A pen on its way, with its error term. -/
structure Pen where
  cell : Cell
  error : Int
deriving DecidableEq, Repr

/-- The pen before the first move. -/
def pen (s : Segment) : Pen := ⟨s.start, s.width - s.height⟩

/-- One move. Both tests look at the error before the move. -/
def move (s : Segment) (p : Pen) : Pen :=
  let sideways := -(s.height : Int) ≤ 2 * p.error
  let downward := 2 * p.error ≤ s.width
  { cell :=
      { row := if downward then p.cell.row + s.rowStep else p.cell.row
        column := if sideways then p.cell.column + s.columnStep else p.cell.column }
    error :=
      p.error - (if sideways then s.height else 0 : Nat) + (if downward then s.width else 0 : Nat) }

/-- The cells from the pen on until it meets the end, or until the moves are used up. -/
def walk (s : Segment) : Nat → Pen → List Cell
  | 0, p => [p.cell]
  | moves + 1, p => if p.cell = s.finish then [p.cell] else p.cell :: walk s moves (s.move p)

/-- The cells of the segment, both ends included. -/
def path (s : Segment) : List Cell := s.walk (max s.width s.height) s.pen

end Segment

end ZeroCurve

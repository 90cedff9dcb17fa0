import ZeroCurve.Projection

/-!
# Views

The part of the plane that is shown: a zoom, which is positive, and the point in the middle of the
grid. The menu's commands move the view; a move is the same number of cells at every zoom.
-/

namespace ZeroCurve

/-- A zoom and the offsets of the middle of the grid. -/
structure View (α : Type) [Scalar α] where
  zoom : α
  xOffset : α
  yOffset : α
  zoom_pos : Scalar.ofInt 0 < zoom

/-- Why there is no view: this zoom is not positive. -/
inductive ViewFault (α : Type) where
  | zoomNotPositive (zoom : α)
deriving Repr

namespace View

variable {α : Type} [Scalar α]

/-- The view with these parameters, if the zoom is positive. -/
def make (zoom xOffset yOffset : α) : Except (ViewFault α) (View α) :=
  if h : Scalar.ofInt 0 < zoom then .ok ⟨zoom, xOffset, yOffset, h⟩
  else .error (.zoomNotPositive zoom)

theorem make_eq {zoom : α} (h : Scalar.ofInt 0 < zoom) (xOffset yOffset : α) :
    make zoom xOffset yOffset = .ok ⟨zoom, xOffset, yOffset, h⟩ := by
  rw [make, dif_pos h]

/-- The window of a view on a grid of this size. -/
def window (v : View α) (width height : Int) (scale : α) : Projection α where
  width
  height
  scale
  zoom := v.zoom
  xOffset := v.xOffset
  yOffset := v.yOffset

/-- The view at the start: one unit to the unit, the origin in the middle. -/
def default : View α := ⟨Scalar.ofInt 1, Scalar.ofInt 0, Scalar.ofInt 0, Scalar.zero_lt_one⟩

/-- The factor of one zoom command. -/
def zoomStep : α := Scalar.ofDecimal ⟨15, 1⟩

/-- How far one move goes in the plane. -/
def panStep (v : View α) : α := Scalar.ofInt 1 / v.zoom

/-- A change of view. -/
inductive Move where
  | zoomIn
  | zoomOut
  | left
  | right
  | up
  | down
deriving DecidableEq, Repr

/-- The view after a change. -/
def move (v : View α) : Move → Except (ViewFault α) (View α)
  | .zoomIn => make (v.zoom * zoomStep) v.xOffset v.yOffset
  | .zoomOut => make (v.zoom / zoomStep) v.xOffset v.yOffset
  | .left => make v.zoom (v.xOffset - v.panStep) v.yOffset
  | .right => make v.zoom (v.xOffset + v.panStep) v.yOffset
  | .up => make v.zoom v.xOffset (v.yOffset + v.panStep)
  | .down => make v.zoom v.xOffset (v.yOffset - v.panStep)

/-- A command of the menu. -/
inductive Command where
  | change (move : Move)
  | newEquation
  | exit
deriving DecidableEq, Repr

/-- The command that a code stands for. -/
def Command.ofCode? : Text → Option Command
  | ['1'] => some (.change .zoomIn)
  | ['2'] => some (.change .zoomOut)
  | ['3'] => some (.change .left)
  | ['4'] => some (.change .right)
  | ['5'] => some (.change .up)
  | ['6'] => some (.change .down)
  | ['7'] => some .newEquation
  | ['8'] => some .exit
  | _ => none

/-- What a code asks for once the view has changed. -/
inductive Action where
  | redraw
  | newEquation
  | exit
  | invalid
deriving DecidableEq, Repr

/-- The view after a code and what is to be done then. A new equation starts from the default view,
and an unknown code changes nothing. -/
def apply (v : View α) (code : Text) : Except (ViewFault α) (View α × Action) :=
  match Command.ofCode? code with
  | some (.change m) => return (← v.move m, .redraw)
  | some .newEquation => return (default, .newEquation)
  | some .exit => return (v, .exit)
  | none => return (v, .invalid)

end View

end ZeroCurve

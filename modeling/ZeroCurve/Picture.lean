import ZeroCurve.Equation
import ZeroCurve.Frame
import ZeroCurve.Plot

/-!
# Pictures of equations

The plot that belongs to an equation and a view, on doubles, and the framed text of its picture.
-/

namespace ZeroCurve

/-- Why there is no picture. -/
inductive PictureFault where
  | arithmetic (fault : ArithmeticFault)
  | encoding (fault : EncodingFault)
deriving DecidableEq, Repr

/-- The wording of the fault. -/
def PictureFault.message : PictureFault → Text
  | .arithmetic fault => fault.message
  | .encoding fault => fault.message

namespace Picture

/-- The width of the printed grid. -/
def width : Int := 80

/-- The height of the printed grid. -/
def height : Int := 20

/-- Cells to the unit at zoom one. -/
def scale : Float := 5

/-- The window of the printed grid at a view. -/
def projection (v : View Float) : Projection Float := v.window width height scale

/-- The iteration for an equation: its solutions are angles if it mentions a function of angles. -/
def newton (e : Equation) : Newton Float :=
  .standard (if e.isPeriodic then some Double.halfTurn else none)

/-- The plot of an equation at a view. -/
def plot (e : Equation) (v : View Float) : Plot Float where
  projection := projection v
  newton := newton e
  window := e.searchWindow
  guesses := 40
  samples := 10

/-- The picture that a plot makes of the zeros of a formula. -/
def render (p : Plot Float) (formula : Formula Float) :
    Except ArithmeticFault (Canvas p.width p.height) := p.render fun x y => formula.eval x y

/-- The solution for `y` at `x` that an iteration finds from `start`. -/
def solve (n : Newton Float) (formula : Formula Float) (x start : Float) :
    Except ArithmeticFault (Option Float) := n.solve (fun y => formula.eval x y) start

/-- The framed picture of a line's equation at a view. -/
def text (line : Text) (v : View Float) : Except PictureFault Text := do
  let e := Equation.ofLine line
  let grid ← (render (plot e v) e.residual).mapError .arithmetic
  (Frame.text grid v).mapError .encoding

end Picture

end ZeroCurve

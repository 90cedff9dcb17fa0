import ZeroCurve.Newton
import ZeroCurve.Projection
import ZeroCurve.Trace

/-!
# Plots

The picture of the zeros of a function of two variables. A number of initial guesses, spread evenly
over a window of `y`, is followed through the columns of the grid: at each sample of a column the
equation is solved for `y`, and the solutions that are on the grid make the trace of the guess.
-/

namespace ZeroCurve

/-- What a plot is made from, the function apart. -/
structure Plot (α : Type) where
  projection : Projection α
  newton : Newton α
  /-- The least and the greatest initial guess. -/
  window : α × α
  /-- How many initial guesses there are; none if it is not positive. -/
  guesses : Int
  /-- How many samples a column has; none if it is not positive. -/
  samples : Int
deriving Repr

namespace Plot

variable {α : Type} [Scalar α]

/-- The width of the grid in cells. -/
def width (p : Plot α) : Nat := p.projection.width.toNat

/-- The height of the grid in cells. -/
def height (p : Plot α) : Nat := p.projection.height.toNat

/-- The initial guess of this number. A single guess is the least one. -/
def guess (p : Plot α) (number : Nat) : α :=
  let gaps := if p.guesses ≤ 1 then Scalar.ofInt 1 else Scalar.ofInt p.guesses - Scalar.ofInt 1
  p.window.1 + (p.window.2 - p.window.1) * Scalar.ofInt number / gaps

/-- The row of the solution at a sample of a column, if there is one on the grid. -/
@[specialize]
def sampleRow (p : Plot α) (f : α → α → α) (start : α) (column sample : Nat) :
    Except ArithmeticFault (Option Int) := do
  let x ← p.projection.columnX column sample p.samples
  match ← p.newton.solve (f x) start with
  | some y => return if Newton.isSolution y then p.projection.rowOf y else none
  | none => return none

/-- The rows of the solutions in a column. -/
@[specialize]
def columnRows (p : Plot α) (f : α → α → α) (start : α) (column : Nat) :
    Except ArithmeticFault (List Int) :=
  (List.range p.samples.toNat).filterMapM (p.sampleRow f start column)

/-- The trace of an initial guess. -/
@[specialize]
def trace (p : Plot α) (f : α → α → α) (start : α) : Except ArithmeticFault Trace :=
  (List.range p.width).mapM (p.columnRows f start)

/-- The traces of all initial guesses. -/
@[specialize]
def traces (p : Plot α) (f : α → α → α) : Except ArithmeticFault (List Trace) :=
  (List.range p.guesses.toNat).mapM fun number => p.trace f (p.guess number)

/-- The grid with its axes. -/
def axes (p : Plot α) : Canvas p.width p.height :=
  Canvas.empty.drawAxes p.projection.axisRow p.projection.axisColumn

/-- The picture of the zeros of `f`. -/
@[specialize]
def render (p : Plot α) (f : α → α → α) : Except ArithmeticFault (Canvas p.width p.height) := do
  return (← p.traces f).foldl Trace.draw p.axes

end Plot

end ZeroCurve

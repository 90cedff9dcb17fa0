import ZeroCurve.Angle

/-!
# Damped Newton iteration

Zeros of a function of one variable, by Newton steps of a fixed fraction. The slope is a forward
difference quotient that is kept away from zero, and for a function of an angle every iterate is
brought back into one turn. The search ends at the first iterate that moved by `tolerance` or less
and fails if there is none before the last pass; an undefined iterate counts as settled.
-/

namespace ZeroCurve

/-- How to iterate. -/
structure Newton (α : Type) where
  /-- Half a turn if the unknown is an angle. -/
  halfTurn : Option α
  /-- The number of passes at which the search gives up; below one there is still one pass. -/
  maxPasses : Int
  /-- The largest move that counts as settled, and the least size of a slope. -/
  tolerance : α
  /-- The distance over which the slope is taken. -/
  step : α
  /-- The part of a Newton step that is taken. -/
  damping : α
deriving Repr

namespace Newton

variable {α : Type} [Scalar α]

/-- The usual settings. -/
def standard (halfTurn : Option α) : Newton α where
  halfTurn
  maxPasses := 100
  tolerance := Scalar.ofDecimal ⟨1, 10⟩
  step := Scalar.ofDecimal ⟨1, 7⟩
  damping := Scalar.ofDecimal ⟨5, 1⟩

/-- A slope of at least the size `tolerance`: a smaller one is replaced, its sign kept. -/
@[inline]
def steepen (tolerance slope : α) : α :=
  if Scalar.magnitude slope < tolerance then
    if slope < Scalar.ofInt 0 then -tolerance else tolerance
  else slope

/-- The forward difference quotient of `f` at `y`. -/
@[inline]
def slopeAt (n : Newton α) (f : α → α) (y : α) : Except ArithmeticFault α :=
  Scalar.divide (f (y + n.step) - f y) n.step

/-- The iterate after `y`, from the value and the slope there. -/
@[inline]
def advanceBy (n : Newton α) (y value slope : α) : Except ArithmeticFault α := do
  let ratio ← Scalar.divide value (steepen n.tolerance slope)
  let next := y - n.damping * ratio
  return match n.halfTurn with
    | some halfTurn => Angle.wrap halfTurn next
    | none => next

/-- The iterate after `y`. -/
@[inline]
def advance (n : Newton α) (f : α → α) (y : α) : Except ArithmeticFault α := do
  n.advanceBy y (f y) (← n.slopeAt f y)

/-- Whether the move from `y` to `next` is too large to stop at. An undefined move is not. -/
@[inline]
def isMoving (n : Newton α) (y next : α) : Bool := n.tolerance < Scalar.magnitude (next - y)

/-- The search from `y` with this many passes left before the last one. -/
@[specialize]
def search (n : Newton α) (f : α → α) : Nat → α → Except ArithmeticFault (Option α)
  | 0, y => do
    let _ ← n.advance f y
    return none
  | passes + 1, y => do
    let next ← n.advance f y
    if n.isMoving y next then n.search f passes next else return some next

/-- The first settled iterate from `start` on, if it comes before the last pass. -/
@[inline]
def solve (n : Newton α) (f : α → α) (start : α) : Except ArithmeticFault (Option α) :=
  n.search f (n.maxPasses - 1).toNat start

/-- Whether a search has found a number to plot. -/
@[inline]
def isSolution (v : α) : Bool := Scalar.isFinite v

end Newton

end ZeroCurve

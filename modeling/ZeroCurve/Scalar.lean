import ZeroCurve.Decimal

/-!
# Scalars

The arithmetic that plotting needs, as one class: the four operations, a decidable order,
conversions from whole and decimal numbers, and the three places where the program looks inside a
number (truncation, floored remainder, finiteness). Everything numerical in the library is written
over it, so the same definitions run on doubles and are reasoned about in exact arithmetic.
-/

namespace ZeroCurve

/-- Numbers to plot with. No law but `zero_lt_one` is asked for: doubles have few. -/
class Scalar (α : Type) extends Add α, Sub α, Mul α, Div α, Neg α, LT α where
  decLt : ∀ a b : α, Decidable (a < b)
  /-- The nearest scalar to a whole number. -/
  ofInt : Int → α
  /-- The nearest scalar to a decimal numeral. -/
  ofDecimal : Decimal → α
  /-- Whether a number is zero, of either sign. -/
  isZero : α → Bool
  /-- Whether a number is neither infinite nor undefined. -/
  isFinite : α → Bool
  /-- The whole part, cut off toward zero; zero where there is none. -/
  trunc : α → Int
  /-- The remainder of the division whose quotient is rounded down. -/
  floorMod : α → α → α
  zero_lt_one : ofInt 0 < ofInt 1

@[always_inline, inline]
instance Scalar.decidableLT {α : Type} [Scalar α] : DecidableLT α := fun a b => Scalar.decLt a b

/-- What can go wrong in arithmetic. -/
inductive ArithmeticFault where
  | divisionByZero
deriving DecidableEq, Repr

/-- The wording of an arithmetic fault. -/
def ArithmeticFault.message : ArithmeticFault → Text
  | .divisionByZero => "division by zero".toList

namespace Scalar

variable {α : Type} [Scalar α]

/-- Distance from zero. The two zeros count as the same here: the result is only ever compared. -/
@[inline] def magnitude (a : α) : α := if a < ofInt 0 then -a else a

/-- The quotient, refused when the divisor is zero. -/
@[inline] def divide (a b : α) : Except ArithmeticFault α :=
  if isZero b then .error .divisionByZero else .ok (a / b)

end Scalar

/-- Scalars with the functions and the power that an equation may use. -/
class Elementary (α : Type) extends Scalar α where
  /-- The value of a quotient with divisor zero. -/
  infinity : α
  sin : α → α
  cos : α → α
  tan : α → α
  /-- Logarithm to base ten. -/
  log10 : α → α
  /-- Natural logarithm. -/
  ln : α → α
  exp : α → α
  sqrt : α → α
  pow : α → α → α

/-- The power in direct evaluation: an exponent of one half takes the square root, which keeps the
sign of a zero and is undefined below zero, at minus infinity too; elsewhere it is `pow`. -/
def Elementary.power {α : Type} [Elementary α] (a b : α) : α :=
  if Scalar.isZero (b - Scalar.ofDecimal ⟨5, 1⟩) then Elementary.sqrt a else Elementary.pow a b

end ZeroCurve

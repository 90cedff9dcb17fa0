import ZeroCurve.Text.Digit

/-!
# Decimal numerals

A numeral without sign and exponent, kept as the integer that its digits write and the number of
those digits behind the point. `Decimal.leading` reads the longest numeral at the front of a text.
-/

namespace ZeroCurve

/-- The number `digits / 10 ^ places`. -/
structure Decimal where
  digits : Nat
  places : Nat
deriving DecidableEq, Repr

namespace Decimal

/-- The numeral with the given digits before and behind the point. -/
def ofParts (whole fraction : Text) : Decimal :=
  ⟨Text.digitsValue (whole ++ fraction), fraction.length⟩

/-- The longest numeral that a text begins with: digits, then perhaps a point and more digits.
A text that begins with no digit and no point, or with a point alone, gives zero. -/
def leading (t : Text) : Decimal :=
  let whole := t.takeWhile Text.isDigit
  match t.dropWhile Text.isDigit with
  | '.' :: rest => ofParts whole (rest.takeWhile Text.isDigit)
  | _ => ofParts whole []

end Decimal

end ZeroCurve

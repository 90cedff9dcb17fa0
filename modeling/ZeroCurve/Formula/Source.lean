import ZeroCurve.Formula
import ZeroCurve.Numeral.Layout

/-!
# Formulas as source text

A formula written out with brackets around every operation, and the definition of the function whose
zeros are plotted: the left side less the right side.
-/

namespace ZeroCurve.Formula

/-- The name of a function in source text, where the two logarithms are told apart by base. -/
def sourceName : Fn → Text
  | .log => "log10".toList
  | f => f.name

/-- A literal of source text. -/
def literal (v : Float) : Text := if v.isInf then "np.inf".toList else Numeral.shortest v

/-- Two operands in brackets behind the name of what joins them. -/
def joined (name left right : Text) : Text :=
  name ++ '(' :: left ++ ',' :: ' ' :: right ++ [')']

/-- The formula in source text. Quotients and powers are written as calls, because both have rules
of their own for zero and undefined operands. -/
def source : Formula Float → Text
  | .lit v => literal v
  | .x => ['x']
  | .y => ['y']
  | .binary .div left right => joined "div".toList left.source right.source
  | .binary .pow left right => joined "power".toList left.source right.source
  | .binary op left right =>
    '(' :: left.source ++ ' ' :: op.symbol :: ' ' :: right.source ++ [')']
  | .call f argument => sourceName f ++ '(' :: argument.source ++ [')']

/-- The definition of a function of `x` and `y` as the difference of two formulas, line by line. -/
def definition (name : Text) (left right : Formula Float) : List Text :=
  ["def ".toList ++ name ++ "(x, y):".toList,
   "    lhs = ".toList ++ left.source,
   "    rhs = ".toList ++ right.source,
   "    return lhs - rhs".toList]

end ZeroCurve.Formula

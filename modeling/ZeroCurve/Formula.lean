import ZeroCurve.Expression

/-!
# Formulas

What the reading of a list of tokens amounts to, as a tree: every operator has both operands and
every part that counts as zero is a literal. A formula is read once and evaluated at many points.
-/

namespace ZeroCurve

/-- A formula in `x` and `y`. -/
inductive Formula (α : Type) where
  | lit (v : α)
  | x
  | y
  | binary (op : Op) (left right : Formula α)
  | call (fn : Fn) (argument : Formula α)
deriving Repr

namespace Formula

variable {α : Type}

/-- The formula of a single token: only `x` and `y` are variables, and all else but a number is
zero. -/
def ofAtom [Scalar α] : Token → Formula α
  | .number text => .lit (Scalar.ofDecimal (Decimal.leading text))
  | .var ['x'] => .x
  | .var ['y'] => .y
  | _ => .lit (Scalar.ofInt 0)

/-- The formula that a list of tokens is read as. -/
def ofTokens [Scalar α] (ts : List Token) : Formula α :=
  match _h : Expression.shape ts with
  | .empty => .lit (Scalar.ofInt 0)
  | .atom t => ofAtom t
  | .binary left op right => .binary op (ofTokens left) (ofTokens right)
  | .call f argument => .call f (ofTokens argument)
  | .group inner => ofTokens inner
  | .unreadable => .lit (Scalar.ofInt 0)
termination_by ts.length
decreasing_by
  all_goals exact Expression.length_lt_of_mem_parts (by simp [_h, Expression.Shape.parts])

/-- The value of a formula at a point. Every power is taken as `pow`, also one with exponent one
half. -/
@[specialize]
def eval [Elementary α] (px py : α) : Formula α → α
  | .lit v => v
  | .x => px
  | .y => py
  | .binary .pow left right => Elementary.pow (eval px py left) (eval px py right)
  | .binary op left right => op.apply (eval px py left) (eval px py right)
  | .call f argument => f.apply (eval px py argument)

end Formula

end ZeroCurve

import ZeroCurve.Scalar

/-!
# Functions and operators

The six functions and the five operators of an equation, with their spelling, their precedence and
what they compute.
-/

namespace ZeroCurve

/-- The functions that an equation may call. -/
inductive Fn where
  | sin
  | cos
  | tan
  | log
  | ln
  | exp
deriving DecidableEq, Repr

namespace Fn

/-- All functions. -/
def all : List Fn := [.sin, .cos, .tan, .log, .ln, .exp]

/-- The name under which an equation calls the function. -/
def name : Fn → Text
  | .sin => ['s', 'i', 'n']
  | .cos => ['c', 'o', 's']
  | .tan => ['t', 'a', 'n']
  | .log => ['l', 'o', 'g']
  | .ln => ['l', 'n']
  | .exp => ['e', 'x', 'p']

/-- The function of this name. -/
def ofName? (word : Text) : Option Fn := all.find? fun f => f.name = word

/-- The value of the function; `log` has base ten and `ln` is natural. -/
@[specialize]
def apply {α : Type} [Elementary α] : Fn → α → α
  | .sin, a => Elementary.sin a
  | .cos, a => Elementary.cos a
  | .tan, a => Elementary.tan a
  | .log, a => Elementary.log10 a
  | .ln, a => Elementary.ln a
  | .exp, a => Elementary.exp a

theorem ofName?_name (f : Fn) : ofName? f.name = some f := by
  cases f <;> rfl

theorem name_of_ofName? {word : Text} {f : Fn} (h : ofName? word = some f) : f.name = word := by
  simpa using List.find?_some h

end Fn

/-- The binary operators. -/
inductive Op where
  | add
  | sub
  | mul
  | div
  | pow
deriving DecidableEq, Repr

namespace Op

/-- All operators. -/
def all : List Op := [.add, .sub, .mul, .div, .pow]

/-- The sign of the operator. -/
def symbol : Op → Char
  | .add => '+'
  | .sub => '-'
  | .mul => '*'
  | .div => '/'
  | .pow => '^'

/-- The operator of this sign. -/
def ofSymbol? (c : Char) : Option Op := all.find? fun o => o.symbol = c

/-- How tightly the operator binds. -/
def precedence : Op → Nat
  | .add | .sub => 1
  | .mul | .div => 2
  | .pow => 3

/-- The value of the operator in direct evaluation. A quotient with divisor zero is infinite,
whatever the sign of the dividend. -/
@[specialize]
def apply {α : Type} [Elementary α] : Op → α → α → α
  | .add, a, b => a + b
  | .sub, a, b => a - b
  | .mul, a, b => a * b
  | .div, a, b => if Scalar.isZero b then Elementary.infinity else a / b
  | .pow, a, b => Elementary.power a b

theorem ofSymbol?_symbol (o : Op) : ofSymbol? o.symbol = some o := by
  cases o <;> rfl

theorem symbol_of_ofSymbol? {c : Char} {o : Op} (h : ofSymbol? c = some o) : o.symbol = c := by
  simpa using List.find?_some h

end Op

end ZeroCurve

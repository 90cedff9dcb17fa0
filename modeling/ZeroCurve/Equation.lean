import ZeroCurve.Token.Scan
import ZeroCurve.Formula.Source
import ZeroCurve.Scalar.Double

/-!
# Equations

An equation is one line of text, read as two sides of an equals sign. What is plotted is the zero
set of the left side less the right side. Which functions the text mentions decides where solutions
are looked for and whether they are angles; these tests look at the characters, not at the tokens.
-/

namespace ZeroCurve

/-- An equation as its line of text. -/
structure Equation where
  text : Text
deriving DecidableEq, Repr

namespace Equation

/-- How many characters of a line count. -/
def maxLength : Nat := 255

/-- The part of a text that is read as an equation: its first line without carriage returns at the
end, cut to `maxLength`. A carriage return that the cut lays bare stays. -/
def normalize (t : Text) : Text :=
  (Text.trimEnd (· = '\r') (t.takeWhile (· ≠ '\n'))).take maxLength

/-- The equation of a line. -/
def ofLine (t : Text) : Equation := ⟨normalize t⟩

/-- The two sides of the first equals sign; an equation without one has the right side `0`. -/
def sides (e : Equation) : Text × Text :=
  match e.text.dropWhile (· ≠ '=') with
  | [] => (e.text, ['0'])
  | _ :: right => (e.text.takeWhile (· ≠ '='), right)

/-- The text before the equals sign. -/
def left (e : Equation) : Text := e.sides.1

/-- The text behind the equals sign. -/
def right (e : Equation) : Text := e.sides.2

/-- The tokens of the left side. -/
def leftTokens (e : Equation) : List Token := Token.scanUpTo Token.limit e.left

/-- The tokens of the right side. -/
def rightTokens (e : Equation) : List Token := Token.scanUpTo Token.limit e.right

/-- The difference of the sides, whose zeros are the solutions. -/
def residual {α : Type} [Scalar α] (e : Equation) : Formula α :=
  .binary .sub (.ofTokens e.leftTokens) (.ofTokens e.rightTokens)

/-- The source text of the difference as a function of this name, line by line. -/
def source (name : Text) (e : Equation) : List Text :=
  Formula.definition name (.ofTokens e.leftTokens) (.ofTokens e.rightTokens)

/-- The name under which a plot defines its function. -/
def sourceName : Text := "impl_eq".toList

/-- Whether the text mentions the function, be it as a part of a longer name. -/
def mentions (e : Equation) (f : Fn) : Bool := Text.mentions f.name e.text

/-- Whether solutions are angles, known up to full turns. -/
def isPeriodic (e : Equation) : Bool := e.mentions .sin || e.mentions .cos || e.mentions .tan

/-- Where the search for solutions starts: between these two values of `y`. -/
def searchWindow {α : Type} [Scalar α] (e : Equation) : α × α :=
  let bound : α :=
    if e.mentions .sin || e.mentions .cos then Scalar.ofDecimal ⟨15, 1⟩
    else if e.mentions .ln || e.mentions .log then Scalar.ofInt 10
    else Scalar.ofInt 5
  (-bound, bound)

end Equation

end ZeroCurve

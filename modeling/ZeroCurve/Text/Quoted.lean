import ZeroCurve.Text.Printable

/-!
# Quoted text

A text between quotes, as messages show it. Single quotes are used unless the text has some and has
no double ones. A backslash stands before the quote and before itself, line ends and tabs have
letters, and what cannot be printed is written by its code point.
-/

namespace ZeroCurve.Text

/-- A number to base sixteen with at least `width` digits. -/
def hexadecimal (width n : Nat) : Text :=
  let digits := Nat.toDigits 16 n
  List.replicate (width - digits.length) '0' ++ digits

/-- A character by its code point, with as many digits as it needs of two, four and eight. -/
def escapedPoint (n : Nat) : Text :=
  if n < 0x100 then '\\' :: 'x' :: hexadecimal 2 n
  else if n < 0x10000 then '\\' :: 'u' :: hexadecimal 4 n
  else '\\' :: 'U' :: hexadecimal 8 n

/-- A character inside quotes. -/
def escaped (quote c : Char) : Text :=
  if c = quote || c = '\\' then ['\\', c]
  else if c = '\n' then ['\\', 'n']
  else if c = '\r' then ['\\', 'r']
  else if c = '\t' then ['\\', 't']
  else if isPrintable c then [c]
  else escapedPoint c.toNat

/-- The quotes that suit a text. -/
def quoteFor (t : Text) : Char := if '\'' ∈ t ∧ '"' ∉ t then '"' else '\''

/-- A text between quotes. -/
def quoted (t : Text) : Text :=
  let quote := quoteFor t
  quote :: t.flatMap (escaped quote) ++ [quote]

end ZeroCurve.Text

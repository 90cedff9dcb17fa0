import ZeroCurve.Numeral.Scientific
import ZeroCurve.Text.Blank

/-!
# Number literals

Numbers as a user types them: blanks around, a sign, digits of any script with a point and an
exponent, single underscores between digits, or one of the words for infinity and the undefined
number.
-/

namespace ZeroCurve.Numeral.Literal

/-- The blanks that may stand around a number: those of Unicode, but of ASCII no separators. -/
def isMargin (c : Char) : Bool := Text.isBlank c && !(0x1c ≤ c.toNat && c.toNat ≤ 0x1f)

/-- A digit of any script as the digit of ASCII, any other character as it is. -/
def plainDigit (c : Char) : Char :=
  match Text.digitValue? c with
  | some n => Nat.digitChar n
  | none => c

/-- The text without underscores, if each of them stands between two digits; `last` is the character
before. -/
def dropUnderscores (last : Char) : Text → Option Text
  | [] => if last = '_' then none else some []
  | c :: cs =>
    if c = '_' then if last.isDigit then dropUnderscores c cs else none
    else if last = '_' && !c.isDigit then none
    else (dropUnderscores c cs).map (c :: ·)

/-- A whole number that may have a sign. -/
def signedWhole? (t : Text) : Option Int :=
  let (negative, digits) :=
    match t with
    | '-' :: rest => (true, rest)
    | '+' :: rest => (false, rest)
    | _ => (false, t)
  if digits = [] || digits.any (!·.isDigit) then none
  else
    let n : Int := Text.digitsValue digits
    some (if negative then -n else n)

/-- The power of ten behind a number: none at all, or a mark and a whole number. -/
def exponent? : Text → Option Int
  | [] => some 0
  | c :: rest => if c = 'e' || c = 'E' then signedWhole? rest else none

/-- A number without sign: digits with at most one point, of which there is at least one digit, and
an exponent. -/
def unsigned? (t : Text) : Option Scientific :=
  let whole := t.takeWhile Char.isDigit
  let rest := t.dropWhile Char.isDigit
  let (fraction, rest) :=
    match rest with
    | '.' :: rest => (rest.takeWhile Char.isDigit, rest.dropWhile Char.isDigit)
    | _ => ([], rest)
  let digits := whole ++ fraction
  if digits = [] then none
  else (exponent? rest).map fun e => ⟨Text.digitsValue digits, e - fraction.length⟩

/-- The size of a number without sign, a word or digits. -/
def size? (t : Text) : Option Float :=
  let word := t.map Char.toLower
  if word = "inf".toList || word = "infinity".toList then some (1.0 / 0.0)
  else if word = "nan".toList then some (0.0 / 0.0)
  else (unsigned? t).map Scientific.toFloat

/-- The number that a literal writes. -/
def read? (t : Text) : Option Float := do
  match ← dropUnderscores ' ' ((Text.trim isMargin t).map plainDigit) with
  | '-' :: rest => return -(← size? rest)
  | '+' :: rest => size? rest
  | rest => size? rest

end ZeroCurve.Numeral.Literal

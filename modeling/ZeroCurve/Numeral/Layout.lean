import ZeroCurve.Numeral.Shortest

/-!
# Number text

How a double is written. Every form puts a minus sign before a negative number, zero included, and
writes the undefined number and the infinities as words; the forms differ in how many digits they
keep and where they put the point.
-/

namespace ZeroCurve.Numeral

/-- `n` zeros. -/
def zeros (n : Nat) : Text := List.replicate n '0'

/-- Digits with the point behind the first `point` of them; zeros fill up on either side, and at
least one digit stands on each side of the point. -/
def positional (digits : Text) (point : Int) : Text :=
  if point ≤ 0 then "0.".toList ++ zeros (-point).toNat ++ digits
  else if digits.length ≤ point then digits ++ zeros (point - digits.length).toNat ++ ".0".toList
  else digits.take point.toNat ++ '.' :: digits.drop point.toNat

/-- The mark of a power of ten: a sign always and two digits at least. -/
def exponentMark (e : Int) : Text :=
  let digits := Nat.toDigits 10 e.natAbs
  'e' :: (if e < 0 then '-' else '+') :: (zeros (2 - digits.length) ++ digits)

/-- Digits with a point behind the first one and a power of ten; a single digit gets no point. -/
def withExponent (digits : Text) (e : Int) : Text :=
  match digits with
  | first :: next :: rest => first :: '.' :: next :: rest ++ exponentMark e
  | _ => digits ++ exponentMark e

/-- Sign and words around the text of a finite double without its sign. -/
def signed (body : Dyadic → Text) (v : Float) : Text :=
  match Dyadic.ofFloat? v with
  | some d => if d.negative then '-' :: body d else body d
  | none => if v.isNaN then "nan".toList else if v < 0.0 then "-inf".toList else "inf".toList

/-- The exponents of ten for which the shortest form is written without an exponent. -/
def isPositional (e : Int) : Bool := -4 ≤ e && e < 16

/-- The shortest form: the fewest digits that read back, positional between `10 ^ -4` and `10 ^ 16`,
where a whole number keeps `.0`. -/
def shortest : Float → Text :=
  signed fun d =>
    if d.mantissa = 0 then "0.0".toList
    else
      let s := Scientific.shortest d
      let digits := s.digitText
      let point := digits.length + s.exponent
      if isPositional (point - 1) then positional digits point else withExponent digits (point - 1)

/-- The form with a fixed number of digits behind the point, a half going to the even neighbour. -/
def fixed (places : Nat) : Float → Text :=
  signed fun d =>
    let (num, den) := Scientific.inUnits d.fraction.1 d.fraction.2 (-places)
    let digits := Nat.toDigits 10 (Scientific.roundDiv num den)
    let padded := zeros (places + 1 - digits.length) ++ digits
    let whole := padded.take (padded.length - places)
    if places = 0 then whole else whole ++ '.' :: padded.drop (padded.length - places)

/-- The form with one digit before the point, `places` behind it and a power of ten. -/
def scientific (places : Nat) : Float → Text :=
  signed fun d =>
    if d.mantissa = 0 then withExponent ('0' :: zeros places) 0
    else
      let (num, den) := d.fraction
      let lead := Scientific.leadingPlace num den
      let scaled := Scientific.inUnits num den (lead - places)
      let digits := Nat.toDigits 10 (Scientific.roundDiv scaled.1 scaled.2)
      -- rounding up to the next power of ten gives one digit more, which is a zero
      if digits.length = places + 1 then withExponent digits lead
      else withExponent digits.dropLast (lead + 1)

end ZeroCurve.Numeral

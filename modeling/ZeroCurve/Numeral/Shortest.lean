import ZeroCurve.Numeral.Scientific

/-!
# Shortest digits

The fewest decimal digits that read back to a given double, and of those the nearest to it. The
numbers that read back are an interval around the double; on each decimal grid it is enough to try
the two neighbours of the double, because an interval around it that holds any grid point holds one
of these two.
-/

namespace ZeroCurve.Scientific

/-- Whether `a · 10 ^ i ≤ b · 2 ^ j`. -/
def leDyadic (a : Nat) (i : Int) (b : Nat) (j : Int) : Bool :=
  a * Nat.pow 10 i.toNat * Nat.pow 2 (-j).toNat ≤ b * Nat.pow 2 j.toNat * Nat.pow 10 (-i).toNat

/-- Whether `b · 2 ^ j ≤ a · 10 ^ i`. -/
def geDyadic (a : Nat) (i : Int) (b : Nat) (j : Int) : Bool :=
  b * Nat.pow 2 j.toNat * Nat.pow 10 (-i).toNat ≤ a * Nat.pow 10 i.toNat * Nat.pow 2 (-j).toNat

/-- Whether a number is one of those that round to the double `d`: it lies between the middles to
the neighbouring doubles, and may be a middle only if the mantissa is even. The lower neighbour of a
power of two is half as far away as the upper one. -/
def readsBackAs (d : Dyadic) (s : Scientific) : Bool :=
  let quarter := d.exponent - 2
  let lower := 4 * d.mantissa - (if d.mantissa = 0x10000000000000 ∧ -1074 < d.exponent then 1 else 2)
  let upper := 4 * d.mantissa + 2
  if d.mantissa % 2 = 0 then
    geDyadic s.digits s.exponent lower quarter && leDyadic s.digits s.exponent upper quarter
  else
    !leDyadic s.digits s.exponent lower quarter && !geDyadic s.digits s.exponent upper quarter

/-- The multiple of `10 ^ place` next to `d` that reads back; of two the nearer, and of two as near
the even one. -/
def nearest? (d : Dyadic) (place : Int) : Option Scientific :=
  let (num, den) := inUnits d.fraction.1 d.fraction.2 place
  let below : Scientific := ⟨num / den, place⟩
  let above : Scientific := ⟨num / den + 1, place⟩
  match readsBackAs d below, readsBackAs d above with
  | true, true => some ⟨roundDiv num den, place⟩
  | true, false => some below
  | false, true => some above
  | false, false => none

/-- The shortest digits of a positive double. Seventeen digits are always enough; the exact value
stands behind them so that the function is total. -/
def shortest (d : Dyadic) : Scientific :=
  let lead := leadingPlace d.fraction.1 d.fraction.2
  let found := (List.range 17).findSome? fun (n : Nat) => nearest? d (lead - n)
  (found.getD (ofDyadic d)).trimZeros

end ZeroCurve.Scientific

import ZeroCurve.Token

/-!
# Tokens of a text

Numbers and names are the longest runs of their characters, every other sign stands alone, and a
character outside the grammar is dropped; it still ends the run before it.
-/

namespace ZeroCurve.Token

/-- The tokens of a text, in order. -/
def scan : Text → List Token
  | [] => []
  | c :: cs =>
    if isNumeral c then
      .number (c :: cs.takeWhile isNumeral) :: scan (cs.dropWhile isNumeral)
    else if isLetter c then
      ofName (c :: cs.takeWhile isLetter) :: scan (cs.dropWhile isLetter)
    else
      match ofSign? c with
      | some t => t :: scan cs
      | none => scan cs
termination_by t => t.length
decreasing_by
  all_goals
    simp only [List.length_cons]
    first
      | exact Nat.lt_succ_of_le (List.dropWhile_sublist _).length_le
      | omega

/-- How many tokens one side of an equation may have. -/
def limit : Int := 100

/-- The first tokens of a text, none if the limit is not positive. -/
def scanUpTo (limit : Int) (t : Text) : List Token := (scan t).take limit.toNat

theorem scanUpTo_of_nonpos {limit : Int} (h : limit ≤ 0) (t : Text) : scanUpTo limit t = [] := by
  rw [scanUpTo, Int.toNat_of_nonpos h, List.take_zero]

/-- The limit is counted down from token to token; what lies behind the last one is not read. -/
theorem scanUpTo_cons {limit : Int} (h : 0 < limit) (c : Char) (cs : Text) :
    scanUpTo limit (c :: cs) =
      if isNumeral c then
        .number (c :: cs.takeWhile isNumeral) :: scanUpTo (limit - 1) (cs.dropWhile isNumeral)
      else if isLetter c then
        ofName (c :: cs.takeWhile isLetter) :: scanUpTo (limit - 1) (cs.dropWhile isLetter)
      else
        match ofSign? c with
        | some t => t :: scanUpTo (limit - 1) cs
        | none => scanUpTo limit cs := by
  have hlimit : limit.toNat = (limit - 1).toNat + 1 := by omega
  simp only [scanUpTo, scan]
  split
  · rw [hlimit, List.take_succ_cons]
  split
  · rw [hlimit, List.take_succ_cons]
  split
  · rw [hlimit, List.take_succ_cons]
  · rfl

end ZeroCurve.Token

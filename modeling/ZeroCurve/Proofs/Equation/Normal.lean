import Mathlib.Logic.Function.Iterate
import ZeroCurve.Proofs.Equation.Tokens
import ZeroCurve.Proofs.Text.Parts

/-!
# Normalizing a line again

A line that has been cut to an equation may be cut once more: the cut lays a carriage return bare,
and the next one takes it away (`normalize_normalize`). No token is lost by that, so the equation
stays the same.
-/

namespace ZeroCurve.Equation

theorem normalize_subset (t : Text) : normalize t ⊆ t.takeWhile (· ≠ '\n') := by
  intro c hc
  have htrimmed := List.mem_of_mem_take hc
  rw [Text.trimEnd, List.mem_reverse] at htrimmed
  exact List.mem_reverse.1 ((List.dropWhile_subset _) htrimmed)

theorem lineFeed_notMem_normalize (t : Text) : '\n' ∉ normalize t := by
  intro h
  simpa using List.mem_takeWhile_imp (normalize_subset t h)

theorem length_normalize_le (t : Text) : (normalize t).length ≤ maxLength :=
  List.length_take_le _ _

/-- Normalizing again takes no token away. -/
theorem scan_normalize_iterate (t : Text) (n : Nat) :
    Token.scan (normalize (normalize^[n] t)) = Token.scan (normalize t) := by
  induction n with
  | zero => rfl
  | succ n ih =>
    rw [Function.iterate_succ_apply',
      scan_normalize (length_normalize_le _) (lineFeed_notMem_normalize _), ih]

/-- The first line of a text without carriage returns at its end, before it is cut. -/
def firstLine (t : Text) : Text := Text.trimEnd (· = '\r') (t.takeWhile (· ≠ '\n'))

theorem normalize_eq_take (t : Text) : normalize t = (firstLine t).take maxLength := rfl

/-- A second time, only carriage returns at the end are taken away. -/
theorem normalize_normalize_eq_trimEnd (t : Text) :
    normalize (normalize t) = Text.trimEnd (· = '\r') (normalize t) :=
  normalize_eq_trimEnd (length_normalize_le t) (lineFeed_notMem_normalize t)

theorem getLast?_firstLine (t : Text) : (firstLine t).getLast? ≠ some '\r' := by
  intro h
  have hself : Text.trimEnd (· = '\r') (firstLine t) = firstLine t := Text.trimEnd_trimEnd _ _
  have := Text.trimEnd_eq_self_iff.1 hself '\r' h
  simp at this

/-- The cut lays a carriage return bare just if it falls behind one. -/
theorem getLast?_normalize_eq_iff (t : Text) :
    (normalize t).getLast? = some '\r' ↔
      maxLength < (firstLine t).length ∧ (firstLine t)[maxLength - 1]? = some '\r' := by
  rw [normalize_eq_take]
  by_cases hlong : maxLength < (firstLine t).length
  · have hlength : ((firstLine t).take maxLength).length = maxLength := by
      rw [List.length_take, Nat.min_eq_left (Nat.le_of_lt hlong)]
    rw [List.getLast?_eq_getElem?, hlength, List.getElem?_take_of_lt (by decide)]
    simp [hlong]
  · rw [List.take_of_length_le (Nat.le_of_not_lt hlong)]
    simp [hlong, getLast?_firstLine]

/-- Normalizing again changes nothing unless the cut falls behind a carriage return; what it then
takes away is the carriage returns at the end, and once more there is nothing left to change. -/
theorem normalize_normalize (t : Text) :
    (normalize (normalize t) = normalize t ↔
      ¬ (maxLength < (firstLine t).length ∧ (firstLine t)[maxLength - 1]? = some '\r')) ∧
    normalize (normalize t) = Text.trimEnd (· = '\r') (normalize t) ∧
    normalize (normalize (normalize t)) = normalize (normalize t) := by
  refine ⟨?_, normalize_normalize_eq_trimEnd t, ?_⟩
  · rw [normalize_normalize_eq_trimEnd, Text.trimEnd_eq_self_iff, ← getLast?_normalize_eq_iff]
    constructor
    · intro h hlast
      simpa using h '\r' hlast
    · intro h c hc
      rw [decide_eq_false_iff_not]
      rintro rfl
      exact h hc
  · rw [normalize_normalize_eq_trimEnd (normalize t), normalize_normalize_eq_trimEnd t,
      Text.trimEnd_trimEnd]

/-- The cut falls behind a carriage return here, so normalizing twice is not normalizing once. -/
theorem normalize_normalize_ne :
    normalize (normalize (List.replicate 254 'x' ++ ['\r', 'x'])) ≠
      normalize (List.replicate 254 'x' ++ ['\r', 'x']) := by
  decide +kernel

end ZeroCurve.Equation

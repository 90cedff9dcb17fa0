import ZeroCurve.Proofs.Expression.Juxtaposed
import ZeroCurve.Proofs.Formula.Reading

/-!
# Parentheses around an expression

Parentheses around a list of tokens are taken off again, however many there are, as long as no
operator of the list has more opening than closing ones behind it. In a list whose parentheses match
none has, whatever else is wrong with the list. So the list in parentheses has the same value and
the same source text.
-/

namespace ZeroCurve

namespace Expression

theorem hasOperatorAt_wrapped_iff {ts : List Token} {n : Nat} {depth : Int} :
    HasOperatorAt (wrapped n ts) (depth + n) ↔ HasOperatorAt ts depth := by
  induction n with
  | zero => rw [wrapped, Int.natCast_zero, Int.add_zero]
  | succ n ih => rw [wrapped, Int.natCast_succ, ← Int.add_assoc, hasOperatorAt_bracketed, ih]

/-- Parentheses are taken off unless they bring an operator outside of all others. -/
theorem shape_bracketed_eq_group_iff {ts : List Token} :
    shape (bracketed ts) = .group ts ↔ ¬ HasOperatorAt ts (-1) := by
  rw [← hasOperatorAt_bracketed, Int.add_left_neg]
  constructor
  · intro hgroup hop
    have hlen : 2 ≤ (bracketed ts).length := by simp [bracketed]
    obtain ⟨left, op, right, hbinary⟩ := exists_shape_binary hlen hop
    rw [hgroup] at hbinary
    cases hbinary
  · intro hnone
    exact shape_bracketed_of_not_visible fun c hc => hnone (hasOperatorAt_zero.2 ⟨c, hc⟩)

/-- All parentheses that are put around a list are taken off again just if no operator of the list
has more opening than closing parentheses behind it. -/
theorem shape_wrapped_eq_group_iff {ts : List Token} :
    (∀ n, shape (wrapped (n + 1) ts) = .group (wrapped n ts)) ↔
      ∀ c : Cut, c.tokens = ts → 0 ≤ excess c.right := by
  have hlayer : ∀ n : Nat, shape (wrapped (n + 1) ts) = .group (wrapped n ts) ↔
      ¬ HasOperatorAt ts (-1 - n) := by
    intro n
    have hdepth : (-1 : Int) = (-1 - n) + n := by omega
    rw [wrapped, shape_bracketed_eq_group_iff, hdepth, hasOperatorAt_wrapped_iff, ← hdepth]
  simp only [hlayer]
  constructor
  · intro hnone c htokens
    by_contra hneg
    exact hnone (-1 - excess c.right).toNat ⟨c, htokens, by omega⟩
  · rintro hall n ⟨c, htokens, hright⟩
    have := hall c htokens
    omega

theorem Matched.shape_wrapped {ts : List Token} (h : Matched ts) (n : Nat) :
    shape (wrapped (n + 1) ts) = .group (wrapped n ts) := by
  refine shape_wrapped_eq_group_iff.2 (fun c htokens => ?_) n
  exact h.excess_suffix c.right ⟨c.left ++ [.operator c.op], by simp [← htokens, Cut.tokens]⟩

end Expression

namespace Formula

open Expression

/-- A list whose parentheses match has the same value and the same source text in any number of
parentheses, also where it lacks operands or has too many. -/
theorem agree_wrapped {ts : List Token} (h : Matched ts) (n : Nat) :
    (∀ (α : Type) [Elementary α] (x y : α), value x y (wrapped n ts) = value x y ts) ∧
    (ofTokens (wrapped n ts) : Formula Float).source = (ofTokens ts : Formula Float).source := by
  induction n with
  | zero => exact ⟨fun _ _ _ _ => rfl, rfl⟩
  | succ n ih =>
    obtain ⟨hvalue, hsource⟩ := ih
    constructor
    · intro α _ x y
      rw [value_eq, h.shape_wrapped n]
      exact hvalue α x y
    · rw [ofTokens_eq, h.shape_wrapped n]
      exact hsource

/-- `(((2)(3)*))` is read as `(2)(3)*`: nothing times nothing. -/
theorem agree_wrapped_malformed :
    Matched (Token.scan "(2)(3)*".toList) ∧
    Token.scan "(((2)(3)*))".toList = wrapped 2 (Token.scan "(2)(3)*".toList) ∧
    (∀ x y : Float, value x y (Token.scan "(((2)(3)*))".toList) =
      value x y (Token.scan "(2)(3)*".toList)) ∧
    (ofTokens (Token.scan "(((2)(3)*))".toList) : Formula Float).source = "(0.0 * 0.0)".toList := by
  have hscan : Token.scan "(2)(3)*".toList =
      bracketed [.number ['2']] ++ (bracketed [.number ['3']] ++ [.operator .mul]) := by
    decide +kernel
  have hwrapped : Token.scan "(((2)(3)*))".toList = wrapped 2 (Token.scan "(2)(3)*".toList) := by
    decide +kernel
  have hmatched : Matched (Token.scan "(2)(3)*".toList) := by
    rw [hscan]
    have hnumber : ∀ text, Matched [.number text] := fun text => .cons rfl .nil
    exact (hnumber ['2']).bracketed.append ((hnumber ['3']).bracketed.append (.cons rfl .nil))
  obtain ⟨hvalue, hsource⟩ := agree_wrapped hmatched 2
  refine ⟨hmatched, hwrapped, ?_, ?_⟩
  · rw [hwrapped]
    exact hvalue Float
  · rw [hwrapped, hsource]
    decide +kernel

/-- Parentheses that do not match make a difference: `(1)+(2)` is a sum and `1)+(2` is nothing. -/
example :
    (ofTokens (bracketed (Token.scan "1)+(2".toList)) : Formula Float).source =
        "(1.0 + 2.0)".toList ∧
      (ofTokens (Token.scan "1)+(2".toList) : Formula Float).source = "0.0".toList := by
  decide +kernel

end Formula

end ZeroCurve

import ZeroCurve.Proofs.Expression.Cut

/-!
# Shapes and values

The shape of lists that are put together from parts, and the value of a list of each shape.
-/

namespace ZeroCurve.Expression

theorem shape_of_two_le_length {ts : List Token} (h : 2 ≤ ts.length) :
    shape ts = match loosestCut ts with
      | some c => .binary c.left c.op c.right
      | none => unsplitShape ts := by
  match ts, h with
  | _ :: _ :: _, _ => rfl

/-- A list that has more than the operator of its loosest cut is split there. -/
theorem shape_of_isLoosest {ts : List Token} {c : Cut} (h : c.IsLoosest ts)
    (hlen : 2 ≤ ts.length) : shape ts = .binary c.left c.op c.right := by
  rw [shape_of_two_le_length hlen, loosestCut_eq_some_iff.2 h]

theorem isGroup_bracketed (ts : List Token) : isGroup (bracketed ts) = true := by
  have hlast : (bracketed ts).getLast? = some .rightParen := by
    rw [bracketed, ← List.cons_append, List.getLast?_concat]
  simp only [isGroup, hlast]
  rfl

/-- The outermost tokens are taken off as a pair of parentheses when no operator is visible, whether or
not the one closes the other. -/
theorem shape_bracketed_of_not_visible {ts : List Token}
    (h : ∀ c : Cut, ¬ c.Visible (bracketed ts)) : shape (bracketed ts) = .group ts := by
  have hlen : 2 ≤ (bracketed ts).length := by simp [bracketed]
  have hunsplit : unsplitShape (bracketed ts) = .group (bracketed ts).tail.dropLast :=
    if_pos (isGroup_bracketed ts)
  rw [shape_of_two_le_length hlen, loosestCut_eq_none_iff.2 h]
  rw [hunsplit, bracketed, List.tail_cons, List.dropLast_concat]

theorem shape_bracketed {ts : List Token} (h : Matched ts) :
    shape (bracketed ts) = .group ts :=
  shape_bracketed_of_not_visible h.not_visible_bracketed

theorem shape_function_bracketed (f : Fn) {ts : List Token} (h : Matched ts) :
    shape (.function f :: bracketed ts) = .call f ts := by
  have hlen : 2 ≤ (Token.function f :: bracketed ts).length := by simp [bracketed]
  have hnone : ∀ c : Cut, ¬ c.Visible (.function f :: bracketed ts) := by
    intro c hc
    rcases hc.cons_cases with ⟨o, ho, -⟩ | ⟨d, hd, -⟩
    · cases ho
    · exact h.not_visible_bracketed d hd
  rw [shape_of_two_le_length hlen, loosestCut_eq_none_iff.2 hnone]
  simp [bracketed, unsplitShape]

variable {α : Type} [Elementary α] (x y : α)

/-- The value of a list from that of the parts of its shape. -/
theorem value_eq (ts : List Token) :
    value x y ts = match shape ts with
      | .empty => Scalar.ofInt 0
      | .atom t => atomValue x y t
      | .binary left op right => op.apply (value x y left) (value x y right)
      | .call f argument => f.apply (value x y argument)
      | .group inner => value x y inner
      | .unreadable => Scalar.ofInt 0 := by
  rw [value]
  split <;> simp [*]

theorem value_bracketed {ts : List Token} (h : Matched ts) :
    value x y (bracketed ts) = value x y ts := by
  rw [value_eq, shape_bracketed h]

theorem value_function_bracketed (f : Fn) {ts : List Token} (h : Matched ts) :
    value x y (.function f :: bracketed ts) = f.apply (value x y ts) := by
  rw [value_eq, shape_function_bracketed f h]

theorem value_of_isLoosest {ts : List Token} {c : Cut} (h : c.IsLoosest ts)
    (hlen : 2 ≤ ts.length) :
    value x y ts = c.op.apply (value x y c.left) (value x y c.right) := by
  rw [value_eq, shape_of_isLoosest h hlen]

end ZeroCurve.Expression

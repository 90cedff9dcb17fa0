import ZeroCurve.Proofs.Expression.Shape
import ZeroCurve.Scalar.Double

/-!
# Expression trees

The grammar that lists of tokens stand for. A tree is written out with as few parentheses as its
operators need, all of which group to the left, and the value of the list is the value of the tree.
An operand may be missing; it has no tokens and counts as zero.
-/

namespace ZeroCurve.Expression

/-- An expression with its structure. -/
inductive Tree where
  /-- No expression at all, as beside an operator that lacks an operand. -/
  | missing
  | number (text : Text)
  | var (name : Text)
  | group (inner : Tree)
  | call (fn : Fn) (argument : Tree)
  | binary (op : Op) (left right : Tree)
deriving DecidableEq, Repr

namespace Tree

/-- The operator at the top of a tree, outside all parentheses. -/
def top? : Tree → Option Op
  | .binary op _ _ => some op
  | _ => none

/-- The tokens of an operand, in parentheses if they are needed. -/
def operand (needed : Bool) (ts : List Token) : List Token :=
  if needed then bracketed ts else ts

/-- The tokens of a tree. A left operand needs parentheses if its operator binds looser, and a right
one also if it binds alike. -/
def tokens : Tree → List Token
  | .missing => []
  | .number text => [.number text]
  | .var name => [.var name]
  | .group inner => bracketed inner.tokens
  | .call f argument => .function f :: bracketed argument.tokens
  | .binary op left right =>
    operand (left.top?.any (·.precedence < op.precedence)) left.tokens ++ .operator op ::
      operand (right.top?.any (·.precedence ≤ op.precedence)) right.tokens

/-- No operator lacks both operands. -/
def HasOperands : Tree → Prop
  | .group inner => inner.HasOperands
  | .call _ argument => argument.HasOperands
  | .binary _ left right =>
    (left ≠ .missing ∨ right ≠ .missing) ∧ left.HasOperands ∧ right.HasOperands
  | _ => True

section Value

variable {α : Type} [Elementary α] (x y : α)

/-- The value of a tree at a point; every variable but the coordinates is zero. -/
def value : Tree → α
  | .missing => Scalar.ofInt 0
  | .number text => Scalar.ofDecimal (Decimal.leading text)
  | .var name => if name = ['x'] then x else if name = ['y'] then y else Scalar.ofInt 0
  | .group inner => inner.value
  | .call f argument => f.apply argument.value
  | .binary op left right => op.apply left.value right.value

end Value

theorem matched_operand {needed : Bool} {ts : List Token} (h : Matched ts) :
    Matched (operand needed ts) := by
  unfold operand
  split
  · exact h.bracketed
  · exact h

theorem matched_tokens (e : Tree) : Matched e.tokens := by
  induction e with
  | missing => exact .nil
  | number text => exact .cons rfl .nil
  | var name => exact .cons rfl .nil
  | group inner ih => exact ih.bracketed
  | call f argument ih => exact .cons rfl ih.bracketed
  | binary op left right ihl ihr =>
    exact (matched_operand ihl).append (.cons rfl (matched_operand ihr))

/-- No operator that a tree shows binds looser than the one at its top. -/
def TopIsLoosest (e : Tree) : Prop :=
  ∀ c : Cut, c.Visible e.tokens → ∃ o, e.top? = some o ∧ o.precedence ≤ c.op.precedence

/-- An operand that shows an operator is one whose own operator needs no parentheses. -/
theorem TopIsLoosest.of_visible_operand {e : Tree} {needs : Op → Bool} {c : Cut}
    (he : e.TopIsLoosest) (h : c.Visible (operand (e.top?.any needs) e.tokens)) :
    ∃ o, needs o = false ∧ o.precedence ≤ c.op.precedence := by
  cases hneeded : e.top?.any needs with
  | true =>
    rw [hneeded] at h
    exact absurd h ((matched_tokens e).not_visible_bracketed c)
  | false =>
    rw [hneeded] at h
    obtain ⟨o, ho, hle⟩ := he c h
    rw [ho, Option.any_some] at hneeded
    exact ⟨o, hneeded, hle⟩

/-- The cut between the operands of a tree. -/
def topCut (op : Op) (left right : Tree) : Cut where
  left := operand (left.top?.any (·.precedence < op.precedence)) left.tokens
  op
  right := operand (right.top?.any (·.precedence ≤ op.precedence)) right.tokens

theorem tokens_topCut (op : Op) (left right : Tree) :
    (topCut op left right).tokens = (binary op left right).tokens := rfl

/-- What a binary tree shows is its own operator, what its right operand shows, or what its left
operand shows. -/
theorem visible_binary_cases {op : Op} {left right : Tree} {c : Cut}
    (h : c.Visible (binary op left right).tokens) :
    c = topCut op left right ∨
      (∃ d : Cut, d.Visible (topCut op left right).right ∧ d.op = c.op) ∨
      ∃ d : Cut, d.Visible (topCut op left right).left ∧ d.op = c.op ∧
        (topCut op left right).right.length < c.right.length := by
  have hright : Matched (topCut op left right).right := matched_operand (matched_tokens right)
  rw [← tokens_topCut] at h
  rcases h.append_cases with ⟨d, hd, rfl⟩ | ⟨d, hd, hexcess, rfl⟩
  · rcases hd.cons_cases with ⟨o, ho, -, rfl⟩ | ⟨e, he, rfl⟩
    · cases ho
      exact .inl (by simp [topCut])
    · exact .inr (.inl ⟨e, he, rfl⟩)
  · refine .inr (.inr ⟨d, ⟨hd, ?_⟩, rfl, ?_⟩)
    · simpa [closing, hright.excess_eq] using hexcess
    · simp only [List.length_append, List.length_cons]
      omega

theorem lt_precedence_of_visible_right {op : Op} {left right : Tree} {c : Cut}
    (hright : right.TopIsLoosest) (h : c.Visible (topCut op left right).right) :
    op.precedence < c.op.precedence := by
  obtain ⟨o, ho, hle⟩ := hright.of_visible_operand h
  exact Nat.lt_of_lt_of_le (Nat.lt_of_not_le (of_decide_eq_false ho)) hle

theorem le_precedence_of_visible_left {op : Op} {left right : Tree} {c : Cut}
    (hleft : left.TopIsLoosest) (h : c.Visible (topCut op left right).left) :
    op.precedence ≤ c.op.precedence := by
  obtain ⟨o, ho, hle⟩ := hleft.of_visible_operand h
  exact Nat.le_trans (Nat.le_of_not_lt (of_decide_eq_false ho)) hle

theorem topIsLoosest (e : Tree) : e.TopIsLoosest := by
  induction e with
  | missing | number | var =>
    intro c hc
    have := hc.operator_mem
    simp [tokens] at this
  | group inner =>
    intro c hc
    exact absurd hc ((matched_tokens inner).not_visible_bracketed c)
  | call f argument =>
    intro c hc
    rcases hc.cons_cases with ⟨o, ho, -⟩ | ⟨d, hd, -⟩
    · cases ho
    · exact absurd hd ((matched_tokens argument).not_visible_bracketed d)
  | binary op left right ihl ihr =>
    intro c hc
    refine ⟨op, rfl, ?_⟩
    rcases visible_binary_cases hc with rfl | ⟨d, hd, hop⟩ | ⟨d, hd, hop, -⟩
    · exact Nat.le_refl _
    · rw [← hop]
      exact Nat.le_of_lt (lt_precedence_of_visible_right ihr hd)
    · rw [← hop]
      exact le_precedence_of_visible_left ihl hd

/-- A written tree is cut at the operator at its top. -/
theorem isLoosest_topCut (op : Op) (left right : Tree) :
    (topCut op left right).IsLoosest (binary op left right).tokens := by
  have hright : Matched (topCut op left right).right := matched_operand (matched_tokens right)
  refine ⟨⟨tokens_topCut op left right, hright.excess_eq⟩, fun c hc => ?_⟩
  rcases visible_binary_cases hc with rfl | ⟨d, hd, hop⟩ | ⟨d, hd, hop, hlen⟩
  · exact .inr ⟨rfl, Nat.le_refl _⟩
  · rw [← hop]
    exact .inl (lt_precedence_of_visible_right (topIsLoosest right) hd)
  · rw [← hop]
    rcases Nat.lt_or_eq_of_le (le_precedence_of_visible_left (topIsLoosest left) hd) with hlt | heq
    · exact .inl hlt
    · exact .inr ⟨heq, Nat.le_of_lt hlen⟩

theorem tokens_eq_nil_iff {e : Tree} : e.tokens = [] ↔ e = .missing := by
  cases e <;> simp [tokens, bracketed]

theorem operand_eq_nil {needed : Bool} {ts : List Token} (h : operand needed ts = []) :
    ts = [] := by
  unfold operand at h
  split at h
  · cases h
  · exact h

/-- A tree with an operator that has an operand is written with two tokens at least. -/
theorem two_le_length_tokens {op : Op} {left right : Tree}
    (h : left ≠ .missing ∨ right ≠ .missing) : 2 ≤ (binary op left right).tokens.length := by
  have hlen := (topCut op left right).tokens_length
  rw [tokens_topCut] at hlen
  rcases h with h | h
  · have : (topCut op left right).left ≠ [] := fun hnil =>
      h (tokens_eq_nil_iff.1 (operand_eq_nil hnil))
    have := List.length_pos_iff.2 this
    omega
  · have : (topCut op left right).right ≠ [] := fun hnil =>
      h (tokens_eq_nil_iff.1 (operand_eq_nil hnil))
    have := List.length_pos_iff.2 this
    omega

variable {α : Type} [Elementary α] (x y : α)

theorem value_operand {needed : Bool} {ts : List Token} (h : Matched ts) :
    Expression.value x y (operand needed ts) = Expression.value x y ts := by
  unfold operand
  split
  · exact value_bracketed x y h
  · rfl

theorem value_atom (t : Token) : Expression.value x y [t] = atomValue x y t := by
  rw [value_eq]
  rfl

/-- Reading the tokens of a tree gives the tree's own value back. -/
theorem value_tokens (e : Tree) (h : e.HasOperands) :
    Expression.value x y e.tokens = e.value x y := by
  induction e with
  | missing =>
    rw [value_eq]
    rfl
  | number text =>
    rw [tokens, value_atom]
    rfl
  | var name =>
    rw [tokens, value_atom]
    simp only [atomValue, Token.var.injEq, value]
    rfl
  | group inner ih =>
    rw [tokens, value_bracketed x y (matched_tokens inner), ih h]
    rfl
  | call f argument ih =>
    rw [tokens, value_function_bracketed x y f (matched_tokens argument), ih h]
    rfl
  | binary op left right ihl ihr =>
    -- without an operand the operator would be a single token, which is read as an atom
    obtain ⟨hsome, hleft, hright⟩ := h
    rw [value_of_isLoosest x y (isLoosest_topCut op left right) (two_le_length_tokens hsome)]
    simp only [topCut, value]
    rw [value_operand x y (matched_tokens left), value_operand x y (matched_tokens right),
      ihl hleft, ihr hright]

/-- `2^3^2-*sin((x))`, where a power chain groups to the left and a product lacks an operand. -/
theorem value_tokens_power_chain :
    let e : Tree := .binary .sub
      (.binary .pow (.binary .pow (.number ['2']) (.number ['3'])) (.number ['2']))
      (.binary .mul .missing (.call .sin (.group (.var ['x']))))
    e.HasOperands ∧ Expression.value (3 : Float) 5 e.tokens = e.value 3 5 := by
  intro e
  have he : e.HasOperands := by simp [e, HasOperands]
  exact ⟨he, value_tokens 3 5 e he⟩

end Tree

end ZeroCurve.Expression

import ZeroCurve.Proofs.Expression.Cut

/-!
# Positions of cuts

Cuts by the position of their operator. An operator is visible where the tokens to its right close as
many parentheses as they open. A list is cut at the visible operator that binds loosest, and at the last
one where several bind alike (`loosestCut_stands_at`), whether or not its parentheses match.
-/

namespace ZeroCurve.Expression

/-- An operator at a position, with as many closing as opening parentheses to its right. On the way
there may be more of the one or of the other. -/
structure VisibleAt (ts : List Token) (i : Nat) (op : Op) : Prop where
  getElem?_eq : ts[i]? = some (.operator op)
  balanced : (ts.drop (i + 1)).count .rightParen = (ts.drop (i + 1)).count .leftParen

/-- The position of the visible operator that binds loosest; the other visible ones that bind as
loosely stand to its left. -/
structure LoosestAt (ts : List Token) (i : Nat) (op : Op) : Prop where
  visible : VisibleAt ts i op
  loosest : ∀ j p, VisibleAt ts j p → op.precedence ≤ p.precedence
  last : ∀ j p, VisibleAt ts j p → j ≠ i → p.precedence = op.precedence → j < i

theorem excess_eq_count_sub_count (ts : List Token) :
    excess ts = (ts.count .rightParen : Int) - ts.count .leftParen := by
  induction ts with
  | nil => rfl
  | cons t ts ih =>
    rw [excess_cons, ih, List.count_cons, List.count_cons]
    cases t <;> simp [closing] <;> omega

theorem excess_eq_zero_iff (ts : List Token) :
    excess ts = 0 ↔ ts.count .rightParen = ts.count .leftParen := by
  rw [excess_eq_count_sub_count]
  omega

/-- A cut is visible just if its operator is, at the position where it stands. -/
theorem Cut.visible_iff {ts : List Token} {c : Cut} :
    c.Visible ts ↔ c.tokens = ts ∧ VisibleAt ts c.left.length c.op := by
  constructor
  · rintro ⟨rfl, hright⟩
    refine ⟨rfl, ?_, ?_⟩
    · simp [Cut.tokens]
    · have hdrop : c.tokens.drop (c.left.length + 1) = c.right := by simp [Cut.tokens]
      rw [hdrop]
      exact (excess_eq_zero_iff _).1 hright
  · rintro ⟨rfl, -, hbalanced⟩
    have hdrop : c.tokens.drop (c.left.length + 1) = c.right := by simp [Cut.tokens]
    rw [hdrop] at hbalanced
    exact ⟨rfl, (excess_eq_zero_iff _).2 hbalanced⟩

/-- At every visible operator there is a cut. -/
theorem VisibleAt.exists_cut {ts : List Token} {i : Nat} {op : Op} (h : VisibleAt ts i op) :
    ∃ c : Cut, c.Visible ts ∧ c.left.length = i ∧ c.op = op := by
  obtain ⟨hi, hget⟩ := List.getElem?_eq_some_iff.1 h.getElem?_eq
  have hlength : (ts.take i).length = i := List.length_take_of_le (Nat.le_of_lt hi)
  have htokens : (⟨ts.take i, op, ts.drop (i + 1)⟩ : Cut).tokens = ts := by
    rw [Cut.tokens, ← hget, ← List.drop_eq_getElem_cons hi, List.take_append_drop]
  refine ⟨⟨ts.take i, op, ts.drop (i + 1)⟩, Cut.visible_iff.2 ⟨htokens, ?_⟩, hlength, rfl⟩
  rw [hlength]
  exact h

/-- The loosest cut is the one at the position of the loosest operator. -/
theorem Cut.isLoosest_iff {ts : List Token} {c : Cut} :
    c.IsLoosest ts ↔ c.tokens = ts ∧ LoosestAt ts c.left.length c.op := by
  -- of two cuts of one list the one with less on its right has more on its left
  have hlengths : ∀ d : Cut, d.tokens = ts → d.left.length + (d.right.length + 1) = ts.length := by
    rintro d rfl
    exact d.tokens_length.symm
  constructor
  · intro h
    obtain ⟨htokens, hvisible⟩ := Cut.visible_iff.1 h.visible
    have hlength := hlengths c htokens
    refine ⟨htokens, hvisible, ?_, ?_⟩
    · intro j p hj
      obtain ⟨d, hd, -, rfl⟩ := hj.exists_cut
      rcases h.first d hd with hlt | ⟨heq, -⟩
      · exact Nat.le_of_lt hlt
      · exact Nat.le_of_eq heq
    · intro j p hj hne heq
      obtain ⟨d, hd, rfl, rfl⟩ := hj.exists_cut
      have hlength' := hlengths d hd.tokens_eq
      rcases h.first d hd with hlt | ⟨-, hle⟩
      · exact absurd heq (Nat.ne_of_gt hlt)
      · omega
  · rintro ⟨htokens, h⟩
    have hlength := hlengths c htokens
    refine ⟨Cut.visible_iff.2 ⟨htokens, h.visible⟩, fun d hd => ?_⟩
    have hlength' := hlengths d hd.tokens_eq
    have hdAt : VisibleAt ts d.left.length d.op := (Cut.visible_iff.1 hd).2
    rcases Nat.lt_or_eq_of_le (h.loosest _ _ hdAt) with hlt | heq
    · exact .inl hlt
    · refine .inr ⟨heq, ?_⟩
      by_cases hsame : d.left.length = c.left.length
      · omega
      · have := h.last _ _ hdAt hsame heq.symm
        omega

/-- Where a list of tokens is cut: nowhere just if no operator is visible, and else at the position of
the visible operator that binds loosest, the rightmost of those that bind alike. Nothing is asked of the
parentheses of the list. -/
theorem loosestCut_stands_at (ts : List Token) :
    (loosestCut ts = none ↔ ∀ i op, ¬ VisibleAt ts i op) ∧
    ∀ c : Cut, loosestCut ts = some c ↔ c.tokens = ts ∧ LoosestAt ts c.left.length c.op := by
  constructor
  · rw [loosestCut_eq_none_iff]
    constructor
    · intro h i op hi
      obtain ⟨c, hc, -⟩ := hi.exists_cut
      exact h c hc
    · intro h c hc
      exact h _ _ (Cut.visible_iff.1 hc).2
  · intro c
    rw [loosestCut_eq_some_iff, Cut.isLoosest_iff]

/-- The sum is visible though the scan from the right opens a parenthesis before it closes one. -/
example :
    let x : Token := .var ['x']
    loosestCut [x, .operator .add, .rightParen, .leftParen, .operator .mul, x] =
      some ⟨[x], .add, [.rightParen, .leftParen, .operator .mul, x]⟩ := by
  decide

end ZeroCurve.Expression

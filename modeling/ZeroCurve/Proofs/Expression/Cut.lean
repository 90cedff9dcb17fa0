import ZeroCurve.Expression

/-!
# Cuts outside parentheses

A list of tokens is cut at an operator that stands outside all parentheses, counted from the right.
`Visible` says which cuts there are and `IsLoosest` which of them is the best one; `loosestCut`
finds exactly that cut. Nothing between matched parentheses is visible.
-/

namespace ZeroCurve.Expression

/-- What a token adds to the number of closing parentheses over that of opening ones. -/
def closing : Token → Int
  | .rightParen => 1
  | .leftParen => -1
  | _ => 0

/-- By how many a list has more closing than opening parentheses. -/
def excess : List Token → Int
  | [] => 0
  | t :: ts => closing t + excess ts

@[simp] theorem excess_nil : excess [] = 0 := rfl

@[simp] theorem excess_cons (t : Token) (ts : List Token) :
    excess (t :: ts) = closing t + excess ts := rfl

@[simp] theorem excess_append (a b : List Token) : excess (a ++ b) = excess a + excess b := by
  induction a with
  | nil => simp
  | cons t a ih => rw [List.cons_append, excess_cons, excess_cons, ih, Int.add_assoc]

/-- A cut of the list at an operator that has as many closing as opening parentheses to its
right. -/
structure Cut.Visible (ts : List Token) (c : Cut) : Prop where
  tokens_eq : c.tokens = ts
  excess_right : excess c.right = 0

/-- The visible cut whose operator binds loosest, and of those the last one. -/
structure Cut.IsLoosest (ts : List Token) (c : Cut) : Prop where
  visible : c.Visible ts
  first : ∀ d : Cut, d.Visible ts → c.op.precedence < d.op.precedence ∨
    c.op.precedence = d.op.precedence ∧ c.right.length ≤ d.right.length

theorem Cut.tokens_length (c : Cut) :
    c.tokens.length = c.left.length + (c.right.length + 1) := by
  simp [Cut.tokens]

/-- Two cuts of one list with as many tokens on the right are the same. -/
theorem Cut.eq_of_tokens_eq {c d : Cut} (h : c.tokens = d.tokens)
    (hr : c.right.length = d.right.length) : c = d := by
  have hl : c.left.length = d.left.length := by
    have := congrArg List.length h
    rw [c.tokens_length, d.tokens_length] at this
    omega
  obtain ⟨left, op, right⟩ := c
  obtain ⟨left', op', right'⟩ := d
  obtain ⟨rfl, h⟩ := List.append_inj h hl
  cases h
  rfl

theorem Cut.visible_behind {ts : List Token} {c : Cut} (h : c.Visible ts) (t : Token) :
    (c.behind t).Visible (t :: ts) :=
  ⟨by rw [tokens_behind, h.tokens_eq], h.excess_right⟩

theorem Cut.Visible.operator_mem {ts : List Token} {c : Cut} (h : c.Visible ts) :
    .operator c.op ∈ ts := by
  rw [← h.tokens_eq]
  simp [Cut.tokens]

/-- A visible cut is one at the first token or one behind it. -/
theorem Cut.Visible.cons_cases {t : Token} {ts : List Token} {c : Cut} (h : c.Visible (t :: ts)) :
    (∃ o, t = .operator o ∧ excess ts = 0 ∧ c = ⟨[], o, ts⟩) ∨
      ∃ d : Cut, d.Visible ts ∧ c = d.behind t := by
  obtain ⟨left, op, right⟩ := c
  obtain ⟨htokens, hright⟩ := h
  cases left with
  | nil =>
    cases htokens
    exact .inl ⟨op, rfl, hright, rfl⟩
  | cons u left =>
    cases htokens
    exact .inr ⟨⟨left, op, right⟩, ⟨rfl, hright⟩, rfl⟩

/-- A visible cut of a joined list lies in one of the two parts. -/
theorem Cut.Visible.append_cases {a b : List Token} {c : Cut} (h : c.Visible (a ++ b)) :
    (∃ d : Cut, d.Visible b ∧ c = { d with left := a ++ d.left }) ∨
      ∃ d : Cut, d.tokens = a ∧ excess d.right + excess b = 0 ∧
        c = { d with right := d.right ++ b } := by
  obtain ⟨left, op, right⟩ := c
  obtain ⟨htokens, hright⟩ := h
  rcases List.append_eq_append_iff.1 htokens with ⟨u, rfl, hu⟩ | ⟨u, rfl, hu⟩
  · cases u with
    | nil =>
      cases hu
      exact .inl ⟨⟨[], op, right⟩, ⟨rfl, hright⟩, by simp⟩
    | cons v u =>
      cases hu
      exact .inr ⟨⟨left, op, u⟩, rfl, by simpa using hright, rfl⟩
  · exact .inl ⟨⟨u, op, right⟩, ⟨hu.symm, hright⟩, rfl⟩

theorem scanCut_fst (ts : List Token) : (scanCut ts).1 = excess ts := by
  induction ts with
  | nil => rfl
  | cons t ts ih =>
    cases t <;> simp only [scanCut, excess_cons, closing, ih] <;> omega

/-- What the scan of a list has to find: the loosest cut, or that there is none. -/
def Finds (ts : List Token) : Option Cut → Prop
  | some c => c.IsLoosest ts
  | none => ∀ c : Cut, ¬ c.Visible ts

/-- A token that is no visible operator leaves the best cut as it is. -/
theorem finds_behind {t : Token} {ts : List Token} {best : Option Cut} (h : Finds ts best)
    (ht : ∀ o, t = .operator o → excess ts = 0 →
      ∃ b, best = some b ∧ b.op.precedence ≤ o.precedence) :
    Finds (t :: ts) (best.map (Cut.behind t)) := by
  cases best with
  | none =>
    intro c hc
    rcases hc.cons_cases with ⟨o, ho, hts, -⟩ | ⟨d, hd, -⟩
    · obtain ⟨b, hb, -⟩ := ht o ho hts
      cases hb
    · exact h d hd
  | some b =>
    refine ⟨Cut.visible_behind h.visible t, fun d hd => ?_⟩
    rcases hd.cons_cases with ⟨o, ho, hts, rfl⟩ | ⟨e, he, rfl⟩
    · obtain ⟨b', hb, hle⟩ := ht o ho hts
      cases hb
      have hlen := congrArg List.length h.visible.tokens_eq
      rw [b.tokens_length] at hlen
      rcases Nat.lt_or_eq_of_le hle with hlt | heq
      · exact .inl hlt
      · exact .inr ⟨heq, by simp only [Cut.behind]; omega⟩
    · exact h.first e he

/-- An operator that binds looser than every visible one behind it becomes the best cut. -/
theorem finds_operator {o : Op} {ts : List Token} {best : Option Cut} (h : Finds ts best)
    (hts : excess ts = 0) (hbest : ∀ b ∈ best, o.precedence < b.op.precedence) :
    Finds (.operator o :: ts) (some ⟨[], o, ts⟩) := by
  refine ⟨⟨rfl, hts⟩, fun d hd => ?_⟩
  rcases hd.cons_cases with ⟨p, hp, -, rfl⟩ | ⟨e, he, rfl⟩
  · cases hp
    exact .inr ⟨rfl, Nat.le_refl _⟩
  · cases best with
    | none => exact absurd he (h e)
    | some b =>
      have hlt := hbest b rfl
      rcases h.first e he with hprec | ⟨hprec, -⟩
      · exact .inl (Nat.lt_trans hlt hprec)
      · exact .inl (hprec ▸ hlt)

theorem finds_scanCut (ts : List Token) : Finds ts (scanCut ts).2 := by
  induction ts with
  | nil => exact fun c hc => List.not_mem_nil hc.operator_mem
  | cons t ts ih =>
    cases t with
    | operator o =>
      simp only [scanCut, scanCut_fst]
      split
      next h =>
        refine finds_operator ih h.1 fun b hb => ?_
        have := h.2
        rw [Option.mem_def.1 hb] at this
        simpa using this
      next h =>
        refine finds_behind ih fun p hp hts => ?_
        cases hp
        -- the operator is visible, so it was refused for a looser or equal one behind it
        cases hb : (scanCut ts).2 with
        | none => exact absurd ⟨hts, by simp [hb]⟩ h
        | some b =>
          refine ⟨b, rfl, Nat.le_of_not_lt fun hlt => h ⟨hts, ?_⟩⟩
          simp [hb, hlt]
    | _ => exact finds_behind ih fun o ho => by cases ho

theorem loosestCut_eq_some_iff {ts : List Token} {c : Cut} :
    loosestCut ts = some c ↔ c.IsLoosest ts := by
  have hfinds : Finds ts (loosestCut ts) := finds_scanCut ts
  constructor
  · intro h
    rw [h] at hfinds
    exact hfinds
  · intro h
    cases hb : loosestCut ts with
    | none =>
      rw [hb] at hfinds
      exact absurd h.visible (hfinds c)
    | some b =>
      rw [hb] at hfinds
      have hlen : b.right.length = c.right.length := by
        rcases hfinds.first c h.visible with h₁ | h₁ <;>
          rcases h.first b hfinds.visible with h₂ | h₂ <;> omega
      rw [Cut.eq_of_tokens_eq (hfinds.visible.tokens_eq.trans h.visible.tokens_eq.symm) hlen]

theorem loosestCut_eq_none_iff {ts : List Token} :
    loosestCut ts = none ↔ ∀ c : Cut, ¬ c.Visible ts := by
  have hfinds : Finds ts (loosestCut ts) := finds_scanCut ts
  constructor
  · intro h
    rw [h] at hfinds
    exact hfinds
  · intro h
    cases hb : loosestCut ts with
    | none => rfl
    | some b =>
      rw [hb] at hfinds
      exact absurd hfinds.visible (h b)

/-- Every parenthesis has its partner: there are as many closing as opening ones, and from the right
on never fewer. -/
structure Matched (ts : List Token) : Prop where
  excess_eq : excess ts = 0
  excess_suffix : ∀ v, v <:+ ts → 0 ≤ excess v

theorem Matched.nil : Matched [] where
  excess_eq := rfl
  excess_suffix := by
    intro v hv
    rw [List.suffix_nil.1 hv]
    exact Int.le_refl 0

theorem Matched.append {a b : List Token} (ha : Matched a) (hb : Matched b) :
    Matched (a ++ b) where
  excess_eq := by rw [excess_append, ha.excess_eq, hb.excess_eq, Int.add_zero]
  excess_suffix := by
    intro v hv
    obtain ⟨u, hu⟩ := hv
    rcases List.append_eq_append_iff.1 hu with ⟨w, rfl, rfl⟩ | ⟨w, rfl, rfl⟩
    · rw [excess_append, hb.excess_eq, Int.add_zero]
      exact ha.excess_suffix w (List.suffix_append u w)
    · exact hb.excess_suffix v (List.suffix_append w v)

/-- A token that is no parenthesis is matched. -/
theorem Matched.cons {t : Token} {ts : List Token} (ht : closing t = 0) (h : Matched ts) :
    Matched (t :: ts) where
  excess_eq := by rw [excess_cons, ht, h.excess_eq, Int.add_zero]
  excess_suffix := by
    intro v hv
    rcases List.suffix_cons_iff.1 hv with rfl | hv
    · have hzero : excess (t :: ts) = 0 := by rw [excess_cons, ht, h.excess_eq, Int.add_zero]
      omega
    · exact h.excess_suffix v hv

/-- A list of tokens in parentheses. -/
def bracketed (ts : List Token) : List Token := .leftParen :: (ts ++ [.rightParen])

theorem Matched.bracketed {ts : List Token} (h : Matched ts) : Matched (bracketed ts) where
  excess_eq := by simp [Expression.bracketed, closing, h.excess_eq]
  excess_suffix := by
    intro v hv
    rcases List.suffix_cons_iff.1 hv with rfl | hv
    · simp [closing, h.excess_eq]
    rcases List.suffix_concat_iff.1 hv with rfl | ⟨u, rfl, hu⟩
    · exact Int.le_refl 0
    · have := h.excess_suffix u hu
      simp only [excess_append, excess_cons, excess_nil, closing]
      omega

/-- Nothing in matched parentheses is visible. -/
theorem Matched.not_visible_bracketed {ts : List Token} (h : Matched ts) (c : Cut) :
    ¬ c.Visible (Expression.bracketed ts) := by
  intro hc
  rcases hc.cons_cases with ⟨o, ho, -⟩ | ⟨d, hd, -⟩
  · cases ho
  rcases hd.append_cases with ⟨e, he, -⟩ | ⟨e, he, hright, -⟩
  · have := he.operator_mem
    simp at this
  · have hsuffix : e.right <:+ ts := ⟨e.left ++ [.operator e.op], by simp [← he, Cut.tokens]⟩
    have := h.excess_suffix e.right hsuffix
    simp only [excess_cons, excess_nil, closing] at hright
    omega

end ZeroCurve.Expression

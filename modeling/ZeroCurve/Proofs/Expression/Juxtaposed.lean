import Mathlib.Data.List.Basic
import ZeroCurve.Proofs.Expression.Shape
import ZeroCurve.Proofs.Token.Runs
import ZeroCurve.Scalar.Double

/-!
# Parts side by side

A list of parts that stand side by side, with no operator between them, is meant to be unreadable and
to count as zero. But a parenthesis that opens the list and one that closes it are taken off as a
pair even when they belong to two different groups, and then what stood in one pair of parentheses
stands in none. So such a list counts as zero, whatever the arithmetic, just if its operators stand
deeper than the parentheses that are taken off, and these hide no function
(`Juxtaposed.value_eq_zero_iff`).
-/

namespace ZeroCurve.Expression

/-- A list of several parts side by side: its parentheses match, no operator stands outside them, and
it is neither a call nor a single group. -/
structure Juxtaposed (ts : List Token) : Prop where
  matched : Matched ts
  two_le_length : 2 ≤ ts.length
  not_call : isCall ts = false
  not_visible : ∀ c : Cut, ¬ c.Visible ts
  not_bracketed : ∀ inner, Matched inner → ts ≠ bracketed inner

/-- How many parentheses both open a list and close it. -/
def layers (ts : List Token) : Nat :=
  min (ts.takeWhile (· = .leftParen)).length (ts.reverse.takeWhile (· = .rightParen)).length

/-- A list in so many pairs of parentheses. -/
def wrapped : Nat → List Token → List Token
  | 0, ts => ts
  | n + 1, ts => bracketed (wrapped n ts)

/-- The list has an operator with so many more closing than opening parentheses to its right. -/
def HasOperatorAt (ts : List Token) (depth : Int) : Prop :=
  ∃ c : Cut, c.tokens = ts ∧ excess c.right = depth

theorem hasOperatorAt_zero {ts : List Token} : HasOperatorAt ts 0 ↔ ∃ c : Cut, c.Visible ts :=
  ⟨fun ⟨c, htokens, hright⟩ => ⟨c, htokens, hright⟩, fun ⟨c, h⟩ => ⟨c, h.tokens_eq, h.excess_right⟩⟩

/-- Parentheses around a list put its operators one deeper. -/
theorem hasOperatorAt_bracketed {ts : List Token} {depth : Int} :
    HasOperatorAt (bracketed ts) (depth + 1) ↔ HasOperatorAt ts depth := by
  constructor
  · rintro ⟨⟨left, op, right⟩, htokens, hright⟩
    cases left with
    | nil => cases htokens
    | cons t left =>
      obtain ⟨-, htail⟩ := List.cons.inj htokens
      rcases List.eq_nil_or_concat' right with rfl | ⟨inner, last, rfl⟩
      · have := List.append_inj_right' htail rfl
        cases this
      · have hsplit : (left ++ .operator op :: inner) ++ [last] = ts ++ [.rightParen] := by
          simpa using htail
        obtain ⟨hinner, hlast⟩ := List.append_inj' hsplit rfl
        cases hlast
        refine ⟨⟨left, op, inner⟩, hinner, ?_⟩
        have hexcess : excess (inner ++ [.rightParen]) = depth + 1 := hright
        simp only [excess_append, excess_cons, excess_nil, closing] at hexcess
        show excess inner = depth
        omega
  · rintro ⟨⟨left, op, right⟩, rfl, hright⟩
    refine ⟨⟨.leftParen :: left, op, right ++ [.rightParen]⟩, ?_, ?_⟩
    · simp [Cut.tokens, bracketed]
    · have : excess right = depth := hright
      simp only [excess_append, excess_cons, excess_nil, closing]
      omega

theorem isGroup_iff {ts : List Token} : isGroup ts = true ↔ ∃ inner, ts = bracketed inner := by
  constructor
  · intro h
    simp only [isGroup, Bool.and_eq_true, decide_eq_true_eq] at h
    obtain ⟨init, rfl⟩ := List.getLast?_eq_some_iff.1 h.2
    cases init with
    | nil => cases h.1
    | cons t inner =>
      cases h.1
      exact ⟨inner, rfl⟩
  · rintro ⟨inner, rfl⟩
    exact isGroup_bracketed inner

theorem layers_bracketed (ts : List Token) : layers (bracketed ts) = layers ts + 1 := by
  have hopen : (ts ++ [Token.rightParen]).takeWhile (· = .leftParen) =
      ts.takeWhile (· = .leftParen) := List.takeWhile_append_break rfl ts []
  have hclose : (ts.reverse ++ [Token.leftParen]).takeWhile (· = .rightParen) =
      ts.reverse.takeWhile (· = .rightParen) := List.takeWhile_append_break rfl ts.reverse []
  simp [layers, bracketed, hopen, hclose]

theorem layers_of_not_isGroup {ts : List Token} (h : isGroup ts = false) : layers ts = 0 := by
  rw [layers, Nat.min_eq_zero_iff, List.length_eq_zero_iff, List.length_eq_zero_iff]
  by_contra hne
  rw [not_or] at hne
  have hhead : ts.head? = some .leftParen := by
    cases ts with
    | nil => simp at hne
    | cons t ts =>
      by_contra ht
      exact hne.1 (List.takeWhile_cons_of_neg (by simpa using ht))
  have hlast : ts.reverse.head? = some .rightParen := by
    cases hts : ts.reverse with
    | nil => simp [hts] at hne
    | cons t rest =>
      by_contra ht
      rw [hts] at hne
      exact hne.2 (List.takeWhile_cons_of_neg (by simpa using ht))
  rw [List.head?_reverse] at hlast
  simp [isGroup, hhead, hlast] at h

/-- Every list is wrapped in its layers. -/
theorem exists_wrapped (ts : List Token) :
    ∃ core, ts = wrapped (layers ts) core ∧ isGroup core = false := by
  generalize hn : layers ts = n
  induction n generalizing ts with
  | zero =>
    refine ⟨ts, rfl, ?_⟩
    by_contra h
    obtain ⟨inner, rfl⟩ := isGroup_iff.1 (by simpa using h)
    rw [layers_bracketed] at hn
    cases hn
  | succ n ih =>
    by_cases h : isGroup ts = true
    · obtain ⟨inner, rfl⟩ := isGroup_iff.1 h
      rw [layers_bracketed] at hn
      obtain ⟨core, hcore, hgroup⟩ := ih inner (by omega)
      exact ⟨core, by rw [wrapped, ← hcore], hgroup⟩
    · rw [layers_of_not_isGroup (by simpa using h)] at hn
      cases hn

theorem hasOperatorAt_wrapped_succ {ts : List Token} {n d : Nat} :
    HasOperatorAt (wrapped (n + 1) ts) (d + 1 : Nat) ↔ HasOperatorAt (wrapped n ts) d := by
  rw [wrapped, Int.natCast_succ]
  exact hasOperatorAt_bracketed

/-- An operator outside parentheses stands in as many as are put around it. -/
theorem hasOperatorAt_wrapped {ts : List Token} (h : HasOperatorAt ts 0) (n : Nat) :
    HasOperatorAt (wrapped n ts) n := by
  induction n with
  | zero => exact h
  | succ n ih => exact hasOperatorAt_wrapped_succ.2 ih

theorem length_wrapped (n : Nat) (ts : List Token) : (wrapped n ts).length = 2 * n + ts.length := by
  induction n with
  | zero => simp [wrapped]
  | succ n ih =>
    simp only [wrapped, bracketed, List.length_cons, List.length_append, List.length_nil, ih]
    omega

theorem drop_wrapped (n : Nat) (ts : List Token) :
    (wrapped n ts).drop n = ts ++ List.replicate n .rightParen := by
  induction n with
  | zero => simp [wrapped]
  | succ n ih =>
    have hlen : n ≤ (wrapped n ts).length := by
      rw [length_wrapped]
      omega
    rw [wrapped, bracketed, List.drop_succ_cons, List.drop_append_of_le_length hlen, ih,
      List.append_assoc, List.replicate_succ']

theorem excess_wrapped (n : Nat) (ts : List Token) : excess (wrapped n ts) = excess ts := by
  induction n with
  | zero => rfl
  | succ n ih =>
    simp only [wrapped, bracketed, excess_cons, excess_append, excess_nil, closing, ih]
    omega

theorem matched_wrapped {ts : List Token} (h : Matched ts) (n : Nat) : Matched (wrapped n ts) := by
  induction n with
  | zero => exact h
  | succ n ih => exact ih.bracketed

/-- What is left of a list of parts has two tokens at least, or the list would be a single group. -/
theorem two_le_length_core {n : Nat} {core : List Token} (h : Juxtaposed (wrapped n core)) :
    2 ≤ core.length := by
  by_contra hshort
  have hexcess : excess core = 0 := by
    rw [← excess_wrapped n]
    exact h.matched.excess_eq
  have hmatched : Matched core := by
    match core, hshort, hexcess with
    | [], _, _ => exact .nil
    | [t], _, hexcess => exact .cons (by simpa using hexcess) .nil
    | _ :: _ :: _, hshort, _ => simp at hshort
  cases n with
  | zero => exact hshort h.two_le_length
  | succ n => exact h.not_bracketed _ (matched_wrapped hmatched n) rfl

variable {α : Type} [Elementary α] (x y : α)

theorem value_wrapped {n : Nat} {core : List Token}
    (h : ∀ d : Nat, d < n → ¬ HasOperatorAt (wrapped n core) d) :
    value x y (wrapped n core) = value x y core := by
  induction n with
  | zero => rfl
  | succ n ih =>
    have hvisible : ∀ c : Cut, ¬ c.Visible (bracketed (wrapped n core)) := by
      intro c hc
      exact h 0 (Nat.succ_pos n) (hasOperatorAt_zero.2 ⟨c, hc⟩)
    rw [wrapped, value_eq, shape_bracketed_of_not_visible hvisible]
    exact ih fun d hd hop => h (d + 1) (Nat.succ_lt_succ hd) (hasOperatorAt_wrapped_succ.2 hop)

theorem shape_unreadable {ts : List Token} (hlen : 2 ≤ ts.length) (hcall : isCall ts = false)
    (hgroup : isGroup ts = false) (h : ∀ c : Cut, ¬ c.Visible ts) : shape ts = .unreadable := by
  rw [shape_of_two_le_length hlen, loosestCut_eq_none_iff.2 h]
  cases ts with
  | nil => cases hlen
  | cons t ts => cases t <;> simp_all [unsplitShape, isCall]

theorem exists_shape_call {ts : List Token} (hlen : 2 ≤ ts.length) (hcall : isCall ts = true)
    (h : ∀ c : Cut, ¬ c.Visible ts) : ∃ f argument, shape ts = .call f argument := by
  rw [shape_of_two_le_length hlen, loosestCut_eq_none_iff.2 h]
  cases ts with
  | nil => cases hlen
  | cons t ts => cases t <;> simp_all [unsplitShape, isCall]

theorem exists_shape_binary {ts : List Token} (hlen : 2 ≤ ts.length) (h : HasOperatorAt ts 0) :
    ∃ left op right, shape ts = .binary left op right := by
  rw [shape_of_two_le_length hlen]
  cases hcut : loosestCut ts with
  | some c => exact ⟨c.left, c.op, c.right, rfl⟩
  | none =>
    obtain ⟨c, hc⟩ := hasOperatorAt_zero.1 h
    exact absurd hc (loosestCut_eq_none_iff.1 hcut c)

/-- Numbers of which it is only known whether a function or an operator computed them. -/
inductive Provenance where
  | zero
  | computed
deriving DecidableEq, Repr

namespace Provenance

instance : Elementary Provenance where
  add _ _ := .computed
  sub _ _ := .computed
  mul _ _ := .computed
  div _ _ := .computed
  neg _ := .computed
  lt a b := a = .zero ∧ b = .computed
  decLt a b := inferInstanceAs (Decidable (a = .zero ∧ b = .computed))
  ofInt n := if n = 0 then .zero else .computed
  ofDecimal _ := .zero
  isZero a := a = .zero
  isFinite _ := true
  trunc _ := 0
  floorMod _ _ := .computed
  zero_lt_one := ⟨rfl, rfl⟩
  infinity := .computed
  sin _ := .computed
  cos _ := .computed
  tan _ := .computed
  log10 _ := .computed
  ln _ := .computed
  exp _ := .computed
  sqrt _ := .computed
  pow _ _ := .computed

theorem apply_op (op : Op) (a b : Provenance) : op.apply a b = .computed := by
  cases op with
  | add => rfl
  | sub => rfl
  | mul => rfl
  | div => exact ite_self _
  | pow =>
    show Elementary.power a b = _
    unfold Elementary.power
    exact ite_self _

theorem apply_fn (f : Fn) (a : Provenance) : f.apply a = .computed := by
  cases f <;> rfl

end Provenance

/-- Where nothing was computed, no operator was visible. -/
theorem not_visible_of_value_eq_zero {ts : List Token} (hlen : 2 ≤ ts.length)
    (h : value Provenance.zero Provenance.zero ts = .zero) : ∀ c : Cut, ¬ c.Visible ts := by
  intro c hc
  obtain ⟨left, op, right, hshape⟩ := exists_shape_binary hlen (hasOperatorAt_zero.2 ⟨c, hc⟩)
  rw [value_eq, hshape] at h
  simp [Provenance.apply_op] at h

/-- Where nothing was computed, no operator and no function was met under the parentheses. -/
theorem of_value_eq_zero {n : Nat} {core : List Token} (hlen : 2 ≤ core.length)
    (h : value Provenance.zero Provenance.zero (wrapped n core) = .zero) :
    isCall core = false ∧ ∀ d : Nat, d ≤ n → ¬ HasOperatorAt (wrapped n core) d := by
  induction n with
  | zero =>
    have hvisible := not_visible_of_value_eq_zero hlen h
    constructor
    · by_contra hcall
      obtain ⟨f, argument, hshape⟩ := exists_shape_call hlen (by simpa using hcall) hvisible
      rw [wrapped, value_eq, hshape] at h
      simp [Provenance.apply_fn] at h
    · intro d hd hop
      rw [Nat.le_zero.1 hd] at hop
      obtain ⟨c, hc⟩ := hasOperatorAt_zero.1 hop
      exact hvisible c hc
  | succ n ih =>
    have hvisible : ∀ c : Cut, ¬ c.Visible (wrapped (n + 1) core) :=
      not_visible_of_value_eq_zero (by rw [length_wrapped]; omega) h
    rw [wrapped, value_eq, shape_bracketed_of_not_visible hvisible] at h
    obtain ⟨hcall, hdeep⟩ := ih h
    refine ⟨hcall, fun d hd hop => ?_⟩
    cases d with
    | zero =>
      obtain ⟨c, hc⟩ := hasOperatorAt_zero.1 hop
      exact hvisible c hc
    | succ d => exact hdeep d (Nat.le_of_succ_le_succ hd) (hasOperatorAt_wrapped_succ.1 hop)

theorem isCall_append {ts : List Token} (h : ts ≠ []) (us : List Token) :
    isCall (ts ++ us) = isCall ts := by
  cases ts with
  | nil => exact absurd rfl h
  | cons t ts => cases t <;> rfl

/-- Parts side by side count as zero, whatever the arithmetic, just if every operator stands in more
parentheses than open and close the list, and no function stands behind those that open it. -/
theorem Juxtaposed.value_eq_zero_iff {ts : List Token} (h : Juxtaposed ts) :
    (∀ (α : Type) [Elementary α] (x y : α), value x y ts = Scalar.ofInt 0) ↔
      isCall (ts.drop (layers ts)) = false ∧
        ∀ c : Cut, c.tokens = ts → layers ts < excess c.right := by
  obtain ⟨core, hcore, hgroup⟩ := exists_wrapped ts
  generalize layers ts = n at hcore
  subst hcore
  have hlen := two_le_length_core h
  have hne : core ≠ [] := by
    rintro rfl
    cases hlen
  have hdeep : (∀ c : Cut, c.tokens = wrapped n core → n < excess c.right) ↔
      ∀ d : Nat, d ≤ n → ¬ HasOperatorAt (wrapped n core) d := by
    constructor
    · rintro hall d hd ⟨c, htokens, hright⟩
      have := hall c htokens
      omega
    · intro hall c htokens
      have hsuffix : c.right <:+ wrapped n core :=
        ⟨c.left ++ [.operator c.op], by simp [← htokens, Cut.tokens]⟩
      have hnonneg := h.matched.excess_suffix c.right hsuffix
      by_contra hle
      refine hall (excess c.right).toNat (by omega) ⟨c, htokens, ?_⟩
      omega
  rw [hdeep, drop_wrapped, isCall_append hne]
  constructor
  · intro hzero
    exact of_value_eq_zero hlen (hzero Provenance .zero .zero)
  · rintro ⟨hcall, hall⟩ α _ x y
    have hvisible : ∀ c : Cut, ¬ c.Visible core := by
      intro c hc
      exact hall n (Nat.le_refl n) (hasOperatorAt_wrapped (hasOperatorAt_zero.2 ⟨c, hc⟩) n)
    rw [value_wrapped x y fun d hd => hall d (Nat.le_of_lt hd), value_eq,
      shape_unreadable hlen hcall hgroup hvisible]

/-- Two groups side by side. -/
theorem juxtaposed_groups {a b : List Token} (ha : Matched a) (hb : Matched b) :
    Juxtaposed (bracketed a ++ bracketed b) where
  matched := ha.bracketed.append hb.bracketed
  two_le_length := by
    simp only [bracketed, List.length_append, List.length_cons, List.length_nil]
    omega
  not_call := rfl
  not_visible := by
    intro c hc
    rcases hc.append_cases with ⟨d, hd, -⟩ | ⟨d, hd, hright, -⟩
    · exact hb.not_visible_bracketed d hd
    · rw [hb.bracketed.excess_eq, Int.add_zero] at hright
      exact ha.not_visible_bracketed d ⟨hd, hright⟩
  not_bracketed := by
    intro inner hinner h
    have hcut : a ++ .rightParen :: .leftParen :: b = inner := by
      have hsplit : (a ++ .rightParen :: .leftParen :: b) ++ [.rightParen] = inner ++ [.rightParen] := by
        simpa [bracketed] using h
      exact List.append_cancel_right hsplit
    have hsuffix : .leftParen :: b <:+ inner := ⟨a ++ [.rightParen], by simp [← hcut]⟩
    have hnonneg := hinner.excess_suffix _ hsuffix
    rw [excess_cons, hb.excess_eq] at hnonneg
    exact absurd hnonneg (by decide)

/-- `((2+3))(4)` counts as zero: its operator stands deeper than the one pair that is taken off. -/
theorem Juxtaposed.value_eq_zero_iff_deep :
    Juxtaposed (Token.scan "((2+3))(4)".toList) ∧
      ∀ x y : Float, value x y (Token.scan "((2+3))(4)".toList) = Scalar.ofInt 0 := by
  have hscan : Token.scan "((2+3))(4)".toList =
      bracketed (bracketed [.number ['2'], .operator .add, .number ['3']]) ++
        bracketed [.number ['4']] := by decide +kernel
  have hsum : Matched [.number ['2'], .operator .add, .number ['3']] :=
    .cons rfl (.cons rfl (.cons rfl .nil))
  rw [hscan]
  have h := juxtaposed_groups hsum.bracketed (.cons rfl .nil : Matched [.number ['4']])
  refine ⟨h, h.value_eq_zero_iff.2 ⟨by decide, ?_⟩ Float⟩
  rintro ⟨left, op, right⟩ htokens
  obtain ⟨rfl, rfl, rfl⟩ : left = [.leftParen, .leftParen, .number ['2']] ∧ op = .add ∧
      right = [.number ['3'], .rightParen, .rightParen, .leftParen, .number ['4'], .rightParen] := by
    simpa [Cut.tokens, bracketed, List.append_eq_cons_iff, List.cons_eq_append_iff] using htokens
  decide

/-- `(1+2)(3)` counts as one: without the outermost tokens its operator stands in no parentheses,
between a one and what counts as zero. -/
theorem value_groups_ne_zero :
    Juxtaposed (Token.scan "(1+2)(3)".toList) ∧
      (value 0 0 (Token.scan "(1+2)(3)".toList) : Float) = Scalar.ofInt 1 ∧
      (value 0 0 (Token.scan "(1+2)(3)".toList) : Float) ≠ Scalar.ofInt 0 := by
  have hscan : Token.scan "(1+2)(3)".toList =
      bracketed [.number ['1'], .operator .add, .number ['2']] ++ bracketed [.number ['3']] := by
    decide +kernel
  have hsum : Matched [.number ['1'], .operator .add, .number ['2']] :=
    .cons rfl (.cons rfl (.cons rfl .nil))
  rw [hscan]
  refine ⟨juxtaposed_groups hsum (.cons rfl .nil), ?_, ?_⟩ <;> decide +kernel

end ZeroCurve.Expression

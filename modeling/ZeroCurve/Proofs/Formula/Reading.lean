import ZeroCurve.Formula.Source
import ZeroCurve.Numeral.Literal
import ZeroCurve.Proofs.Expression.Shape
import ZeroCurve.Proofs.Formula.Grammar
import ZeroCurve.Proofs.Scalar.Unpacked

/-!
# What source text means

The source text of every list of tokens, balanced or not, is a sentence of the bracketed grammar,
of one sentence only, and the value of this sentence is that of direct evaluation. So the function
that two lists define is the difference of their values.
-/

namespace ZeroCurve

namespace Expression

/-- The parts of a list have no token that the list does not have. -/
theorem subset_of_mem_parts {ts p : List Token} (h : p ∈ (shape ts).parts) : p ⊆ ts := by
  unfold shape at h
  split at h
  · simp [Shape.parts] at h
  · simp [Shape.parts] at h
  · split at h
    next c hc =>
      rw [← tokens_of_loosestCut hc]
      simp only [Shape.parts, List.mem_cons, List.not_mem_nil, or_false] at h
      rcases h with rfl | rfl
      · exact List.subset_append_left _ _
      · exact List.Subset.trans (List.subset_cons_self _ _) (List.subset_append_right _ _)
    next =>
      have inner : ∀ us : List Token, us.tail.dropLast ⊆ us := fun us =>
        List.Subset.trans (List.dropLast_subset _) fun _ => List.mem_of_mem_tail
      unfold unsplitShape at h
      split at h
      next _ rest _ _ _ =>
        cases List.mem_singleton.1 h
        exact List.Subset.trans (inner rest) (List.subset_cons_self _ _)
      next =>
        split at h
        · cases List.mem_singleton.1 h
          exact inner _
        · simp [Shape.parts] at h

theorem mem_of_shape_atom {ts : List Token} {t : Token} (h : shape ts = .atom t) : t ∈ ts := by
  match ts with
  | [] => cases h
  | [u] =>
    cases h
    exact List.mem_singleton_self _
  | u :: u' :: us =>
    rw [shape_of_two_le_length (by simp)] at h
    split at h
    · cases h
    · unfold unsplitShape at h
      split at h
      · cases h
      · split at h <;> cases h

end Expression

namespace Formula

/-- The numbers that a formula writes out. -/
def literals {α : Type} : Formula α → List α
  | .lit v => [v]
  | .x | .y => []
  | .binary _ left right => left.literals ++ right.literals
  | .call _ argument => argument.literals

section Generic

variable {α : Type} [Elementary α]

/-- The formula of a list from those of the parts of its shape. -/
theorem ofTokens_eq (ts : List Token) :
    ofTokens (α := α) ts = match Expression.shape ts with
      | .empty => .lit (Scalar.ofInt 0)
      | .atom t => ofAtom t
      | .binary left op right => .binary op (ofTokens left) (ofTokens right)
      | .call f argument => .call f (ofTokens argument)
      | .group inner => ofTokens inner
      | .unreadable => .lit (Scalar.ofInt 0) := by
  rw [ofTokens]
  split <;> simp [*]

theorem mem_literals_ofAtom {t : Token} {v : α} (h : v ∈ (ofAtom t).literals) : v = t.value := by
  unfold ofAtom at h
  split at h
  · exact List.mem_singleton.1 h
  · cases h
  · cases h
  next hnumber _ _ =>
    cases t with
    | number text => exact absurd rfl (hnumber text)
    | _ => exact List.mem_singleton.1 h

/-- A formula writes out numbers of its list only, and zero. -/
theorem mem_literals_ofTokens {ts : List Token} {v : α} (h : v ∈ (ofTokens ts).literals) :
    v = Scalar.ofInt 0 ∨ ∃ t ∈ ts, v = t.value := by
  have part : ∀ p ∈ (Expression.shape ts).parts, v ∈ (ofTokens p).literals →
      v = Scalar.ofInt 0 ∨ ∃ t ∈ ts, v = t.value := by
    intro p hp hv
    rcases mem_literals_ofTokens hv with hzero | ⟨t, ht, hvalue⟩
    · exact .inl hzero
    · exact .inr ⟨t, Expression.subset_of_mem_parts hp ht, hvalue⟩
  rw [ofTokens_eq] at h
  cases hs : Expression.shape ts with
  | empty | unreadable =>
    rw [hs] at h
    exact .inl (List.mem_singleton.1 h)
  | atom t =>
    rw [hs] at h
    exact .inr ⟨t, Expression.mem_of_shape_atom hs, mem_literals_ofAtom h⟩
  | binary left op right =>
    rw [hs] at h part
    rcases List.mem_append.1 h with hv | hv
    · exact part left (by simp [Expression.Shape.parts]) hv
    · exact part right (by simp [Expression.Shape.parts]) hv
  | call f argument =>
    rw [hs] at h part
    exact part argument (by simp [Expression.Shape.parts]) h
  | group inner =>
    rw [hs] at h part
    exact part inner (by simp [Expression.Shape.parts]) h
termination_by ts.length
decreasing_by exact Expression.length_lt_of_mem_parts hp

end Generic

/-- The functions of the outer world that formulas call. -/
structure Library where
  sin : Float → Float
  cos : Float → Float
  tan : Float → Float
  log10 : Float → Float
  ln : Float → Float
  exp : Float → Float
  sqrt : Float → Float
  pow : Float → Float → Float

/-- Doubles with these functions. -/
@[reducible]
def Library.elementary (lib : Library) : Elementary Float where
  infinity := Double.infinity
  sin := lib.sin
  cos := lib.cos
  tan := lib.tan
  log10 := lib.log10
  ln := lib.ln
  exp := lib.exp
  sqrt := lib.sqrt
  pow := lib.pow

/-- The value of a list of tokens with the functions of a library. -/
def Library.value (lib : Library) (x y : Float) (ts : List Token) : Float :=
  @Expression.value Float lib.elementary x y ts

/-- Whether the text of a number is read as that number. -/
def ReadsBack (read : Text → Float) (v : Float) : Prop := read (Numeral.shortest v) = v

/-- Every finite number of a list is read back from its text, and so is zero. -/
structure ReadsBackIn (read : Text → Float) (ts : List Token) : Prop where
  zero : ReadsBack read (Scalar.ofInt 0)
  token : ∀ t ∈ ts, (t.value : Float).isFinite = true → ReadsBack read t.value

theorem ReadsBackIn.mono {read : Text → Float} {ts us : List Token} (h : ReadsBackIn read us)
    (hsub : ts ⊆ us) : ReadsBackIn read ts where
  zero := h.zero
  token := fun t ht => h.token t (hsub ht)

/-- The value of a token is infinite or a finite number without a minus sign. -/
theorem value_cases (t : Token) :
    (t.value : Float) = Double.infinity ∨
      ∃ d, Dyadic.ofFloat? (t.value : Float) = some d ∧ d.negative = false := by
  cases t with
  | number text => exact Double.ofDecimal_cases (Decimal.leading text)
  | _ => exact .inr ⟨_, Double.ofFloat?_zero, rfl⟩

theorem source_binary (op : Op) (left right : Formula Float) :
    (Formula.binary op left right).source =
      Sentence.operation op left.source right.source := by
  cases op with
  | div =>
    show joined "div".toList left.source right.source = _
    unfold joined Sentence.operation
    simp
  | pow =>
    show joined "power".toList left.source right.source = _
    unfold joined Sentence.operation
    simp
  | add =>
    show '(' :: left.source ++ ' ' :: '+' :: ' ' :: right.source ++ [')'] = _
    unfold Sentence.operation
    simp
  | sub =>
    show '(' :: left.source ++ ' ' :: '-' :: ' ' :: right.source ++ [')'] = _
    unfold Sentence.operation
    simp
  | mul =>
    show '(' :: left.source ++ ' ' :: '*' :: ' ' :: right.source ++ [')'] = _
    unfold Sentence.operation
    simp

theorem source_call (f : Fn) (argument : Formula Float) :
    (Formula.call f argument).source =
      Sentence.name f ++ "(".toList ++ argument.source ++ ")".toList := by
  have hname : sourceName f = Sentence.name f := by cases f <;> rfl
  show sourceName f ++ '(' :: argument.source ++ [')'] = _
  rw [hname]
  simp

end Formula

end ZeroCurve

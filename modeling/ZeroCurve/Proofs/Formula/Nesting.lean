import ZeroCurve.Equation
import ZeroCurve.Proofs.Formula.Reading
import ZeroCurve.Proofs.Text.Nesting

/-!
# How deep source text nests

Source text has one pair of parentheses for each operation, so it nests as deep as the formula. Each
operation takes a token of its own away from its operands, so a formula is less deep than its list of
tokens is long, whatever the parentheses in the list are. With the tokens that an equation may have
its source text stays within what a reader takes.
-/

namespace ZeroCurve

namespace Expression

theorem two_le_length_of_mem_parts {ts p : List Token} (h : p ∈ (shape ts).parts) :
    2 ≤ ts.length := by
  match ts with
  | [] => cases h
  | [_] => cases h
  | _ :: _ :: _ => simp

end Expression

namespace Formula

open Expression

/-- How many operations of a formula are in one another. -/
def depth {α : Type} : Formula α → Nat
  | .lit _ | .x | .y => 0
  | .binary _ left right => max left.depth right.depth + 1
  | .call _ argument => argument.depth + 1

section Generic

variable {α : Type} [Elementary α]

theorem depth_ofAtom (t : Token) : (ofAtom t : Formula α).depth = 0 := by
  unfold ofAtom
  split <;> rfl

/-- A formula is less deep than its list of tokens is long. -/
theorem depth_ofTokens_le (ts : List Token) :
    (ofTokens ts : Formula α).depth ≤ ts.length - 1 := by
  -- a list that has parts has two tokens, and the parts have fewer
  have part : ∀ p ∈ (shape ts).parts,
      (ofTokens p : Formula α).depth + 1 ≤ ts.length - 1 := by
    intro p hp
    have hpart := depth_ofTokens_le p
    have hshorter := length_lt_of_mem_parts hp
    have htwo := two_le_length_of_mem_parts hp
    omega
  rw [ofTokens_eq]
  cases hs : shape ts with
  | empty | unreadable => exact Nat.zero_le _
  | atom t => exact (depth_ofAtom t).trans_le (Nat.zero_le _)
  | binary left op right =>
    rw [hs] at part
    have hleft := part left (by simp [Shape.parts])
    have hright := part right (by simp [Shape.parts])
    simp only [depth]
    omega
  | call f argument =>
    rw [hs] at part
    exact part argument (by simp [Shape.parts])
  | group inner =>
    rw [hs] at part
    exact Nat.le_of_succ_le (part inner (by simp [Shape.parts]))
termination_by ts.length
decreasing_by exact length_lt_of_mem_parts hp

end Generic

/-- Whether the numbers of a formula are written as words, without parentheses. -/
def HasPlainLiterals (e : Formula Float) : Prop :=
  ∀ v ∈ e.literals, ∀ c ∈ literal v, Sentence.isDelimiter c = false

theorem hasPlainLiterals_ofTokens (ts : List Token) : HasPlainLiterals (ofTokens ts) := by
  intro v hv
  have hcases : v = Double.infinity ∨ ∃ d, Dyadic.ofFloat? v = some d ∧ d.negative = false := by
    rcases mem_literals_ofTokens hv with rfl | ⟨t, -, rfl⟩
    · exact .inr ⟨_, Double.ofFloat?_zero, rfl⟩
    · exact value_cases t
  rcases hcases with rfl | ⟨d, hd, hsign⟩
  · have hinf : Double.infinity.isInf = true := by decide
    rw [literal, if_pos hinf]
    exact Sentence.isDelimiter_plain (h := .infinity) (by decide)
  · have hfinite : v.isFinite = true := by
      rw [Double.isFinite_eq, hd]
      rfl
    have hinf : v.isInf = false := Double.isInf_of_isFinite hfinite
    rw [literal, if_neg (Bool.eq_false_iff.1 hinf)]
    exact Sentence.isDelimiter_of_isLiteral (Numeral.isLiteral_shortest hd hsign)

theorem nests_word {limit : Nat} {t : Text} (h : ∀ c ∈ t, Sentence.isDelimiter c = false) :
    Text.Nests limit t :=
  Text.nests_of_notMem (fun hopen => absurd (h _ hopen) (by decide))
    fun hclose => absurd (h _ hclose) (by decide)

/-- What is written before the operands of an operation has no parentheses, and neither has what is
written between them. -/
theorem nests_opHead_gap (limit : Nat) (op : Op) :
    Text.Nests limit (Sentence.opHead op).word ∧ Text.Nests limit (Sentence.gap op) := by
  have hplain : Sentence.opHead op ∈ Sentence.plainHeads := by cases op <;> decide
  refine ⟨nests_word (Sentence.isDelimiter_plain hplain), ?_⟩
  exact Text.nests_of_notMem (by cases op <;> decide) (by cases op <;> decide)

/-- Source text nests as deep as its formula. -/
theorem nests_source {e : Formula Float} (h : e.HasPlainLiterals) :
    Text.Nests e.depth e.source := by
  induction e with
  | lit v => exact nests_word (h v (List.mem_singleton_self v))
  | x =>
    have hx : Text.Nests 0 ['x'] := by decide
    exact hx
  | y =>
    have hy : Text.Nests 0 ['y'] := by decide
    exact hy
  | binary op left right ihl ihr =>
    have hleft := ihl fun v hv => h v (List.mem_append_left _ hv)
    have hright := ihr fun v hv => h v (List.mem_append_right _ hv)
    have hoperands := (hleft.mono (Nat.le_max_left _ right.depth)).append
      ((nests_opHead_gap _ op).2.append (hright.mono (Nat.le_max_right left.depth _)))
    rw [source_binary, Sentence.operation_eq, depth]
    simpa using (nests_opHead_gap _ op).1.append hoperands.bracket
  | call f argument ih =>
    have hname : Text.Nests (argument.depth + 1) (Sentence.name f) :=
      Text.nests_of_notMem (by cases f <;> decide) (by cases f <;> decide)
    rw [source_call, depth]
    simpa using hname.append (ih h).bracket

theorem nests_source_ofTokens (ts : List Token) :
    Text.Nests (ts.length - 1) (ofTokens ts : Formula Float).source :=
  (nests_source (hasPlainLiterals_ofTokens ts)).mono (depth_ofTokens_le ts)

/-- A definition nests as deep as its sides, and once around its parameters. -/
theorem nests_definition {limit : Nat} {name : Text} {left right : Formula Float}
    (hlimit : 1 ≤ limit) (hname : Text.Nests limit name) (hleft : Text.Nests limit left.source)
    (hright : Text.Nests limit right.source) :
    Text.Nests limit (Text.joinLines (definition name left right)) := by
  have hparameters : Text.Nests 1 "(x, y):".toList := by decide
  have hword : ∀ t : Text, Text.Nests 0 t → Text.Nests limit t := fun t h => h.mono (Nat.zero_le _)
  refine Text.nests_joinLines ?_
  simp only [definition, List.forall_mem_cons, List.not_mem_nil, false_imp_iff, implies_true,
    and_true]
  refine ⟨?_, ?_, ?_, ?_⟩
  · exact ((hword _ (by decide)).append hname).append (hparameters.mono hlimit)
  · exact (hword _ (by decide)).append hleft
  · exact (hword _ (by decide)).append hright
  · exact hword _ (by decide)

end Formula

namespace Equation

/-- How many parentheses a reader of source text takes in one another. -/
def nestingLimit : Nat := 200

theorem length_tokens_le (e : Equation) : e.leftTokens.length ≤ 100 ∧ e.rightTokens.length ≤ 100 :=
  ⟨List.length_take_le _ _, List.length_take_le _ _⟩

theorem nests_source (e : Equation) : Text.Nests 99 (Text.joinLines (e.source sourceName)) := by
  obtain ⟨hleft, hright⟩ := e.length_tokens_le
  refine Formula.nests_definition (by decide) (by decide) ?_ ?_
  · exact (Formula.nests_source_ofTokens e.leftTokens).mono (by omega)
  · exact (Formula.nests_source_ofTokens e.rightTokens).mono (by omega)

end Equation

namespace Formula

/-- The source text of a list of tokens, balanced or not, has matching parentheses that nest less
deep than the list is long. So the source text of an equation nests at most 99 deep, and a reader
that counts the open parentheses takes it whole. -/
theorem source_nests_within_limit :
    (∀ ts : List Token, Text.Nests (ts.length - 1) (ofTokens ts : Formula Float).source) ∧
    99 < Equation.nestingLimit ∧
    ∀ e : Equation,
      Text.Nests 99 (Text.joinLines (e.source Equation.sourceName)) ∧
      Text.openBehind Equation.nestingLimit 0 (Text.joinLines (e.source Equation.sourceName)) =
        some 0 := by
  have hlimit : 99 < Equation.nestingLimit := by decide
  refine ⟨nests_source_ofTokens, hlimit, fun e => ⟨e.nests_source, ?_⟩⟩
  exact Text.nests_iff_openBehind.1 (e.nests_source.mono hlimit.le)

/-- A run of operators nests as deep as the bound allows: three tokens, two deep. -/
example : (ofTokens (Token.scan "+++".toList) : Formula Float).source =
      "((0.0 + 0.0) + 0.0)".toList ∧
    ¬ Text.Nests 1 (ofTokens (Token.scan "+++".toList) : Formula Float).source := by
  decide +kernel

end Formula

end ZeroCurve

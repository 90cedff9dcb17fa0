import ZeroCurve.Proofs.Numeral.Literal
import ZeroCurve.Proofs.Scalar.Decimal
import ZeroCurve.Proofs.Token.Spelling

/-!
# Values of number tokens

A run of digits and points has the value of the longest decimal numeral that it begins with, and what
stands behind the second point does not count (`value_number`). The numeral is a literal, unless it has
no digit at all.
-/

namespace ZeroCurve.Token

open Numeral

/-- The numerals without sign and exponent: digits, then perhaps a point and more digits. There need
not be any digit. -/
inductive IsDecimal : Text → Prop where
  | whole {a : Text} (ha : ∀ c ∈ a, c.isDigit = true) : IsDecimal a
  | point {a b : Text} (ha : ∀ c ∈ a, c.isDigit = true) (hb : ∀ c ∈ b, c.isDigit = true) :
    IsDecimal (a ++ '.' :: b)

/-- A text cut at its first two points: the digits before the first one, those behind it, and the
numeral that they make. -/
inductive CutAtPoints : (whole fraction numeral text : Text) → Prop where
  | whole {a : Text} (ha : ∀ c ∈ a, c.isDigit = true) : CutAtPoints a [] a a
  | point {a b : Text} (ha : ∀ c ∈ a, c.isDigit = true) (hb : ∀ c ∈ b, c.isDigit = true) :
    CutAtPoints a b (a ++ '.' :: b) (a ++ '.' :: b)
  | points {a b : Text} (ha : ∀ c ∈ a, c.isDigit = true) (hb : ∀ c ∈ b, c.isDigit = true)
    (rest : Text) : CutAtPoints a b (a ++ '.' :: b) (a ++ '.' :: (b ++ '.' :: rest))

/-- The longest beginning of a text that has a property. -/
structure IsLongestPrefix (p : Text → Prop) (t text : Text) : Prop where
  isPrefix : t <+: text
  holds : p t
  length_le : ∀ u, u <+: text → p u → u.length ≤ t.length

theorem isDigit_of_isNumeral {c : Char} (h : isNumeral c = true) (hne : c ≠ '.') :
    c.isDigit = true := by
  have hnot : (c == '.') = false := beq_false_of_ne hne
  rw [isNumeral, hnot, Bool.or_false, Bool.and_eq_true, decide_eq_true_eq, decide_eq_true_eq,
    Char.le_def, Char.le_def, UInt32.le_iff_toNat_le, UInt32.le_iff_toNat_le] at h
  exact Char.isDigit_iff_toNat.2 h

/-- Where digits and points stop being digits, there is a point. -/
theorem digits_or_point {text : Text} (h : ∀ c ∈ text, isNumeral c = true) :
    (∀ c ∈ text, c.isDigit = true) ∨
      ∃ a rest, (∀ c ∈ a, c.isDigit = true) ∧ text = a ++ '.' :: rest := by
  have hcut := List.takeWhile_append_dropWhile (p := Char.isDigit) (l := text)
  have hdigits : ∀ c ∈ text.takeWhile Char.isDigit, c.isDigit = true :=
    fun c hc => List.mem_takeWhile_imp hc
  cases hrest : text.dropWhile Char.isDigit with
  | nil =>
    rw [hrest, List.append_nil] at hcut
    rw [hcut] at hdigits
    exact .inl hdigits
  | cons c rest =>
    have hc : c.isDigit = false :=
      List.head?_dropWhile_eq_false Char.isDigit text c (by rw [hrest]; rfl)
    have hmem : c ∈ text := (List.dropWhile_subset _) (by rw [hrest]; exact List.mem_cons_self)
    have hpoint : c = '.' := by
      by_contra hne
      rw [isDigit_of_isNumeral (h c hmem) hne] at hc
      cases hc
    rw [hrest, hpoint] at hcut
    exact .inr ⟨_, rest, hdigits, hcut.symm⟩

/-- Every text of digits and points can be cut. -/
theorem exists_cutAtPoints {text : Text} (h : ∀ c ∈ text, isNumeral c = true) :
    ∃ whole fraction numeral, CutAtPoints whole fraction numeral text := by
  rcases digits_or_point h with hall | ⟨a, rest, ha, rfl⟩
  · exact ⟨_, _, _, .whole hall⟩
  have hrest : ∀ c ∈ rest, isNumeral c = true :=
    fun c hc => h c (List.mem_append_right a (List.mem_cons_of_mem _ hc))
  rcases digits_or_point hrest with hall | ⟨b, rest, hb, rfl⟩
  · exact ⟨_, _, _, .point ha hall⟩
  · exact ⟨_, _, _, .points ha hb rest⟩

theorem point_notMem {t : Text} (h : ∀ c ∈ t, c.isDigit = true) : '.' ∉ t :=
  fun hmem => absurd (h _ hmem) (by decide)

theorem IsDecimal.count_point_le {t : Text} (h : IsDecimal t) : t.count '.' ≤ 1 := by
  cases h with
  | whole ha => rw [List.count_eq_zero_of_not_mem (point_notMem ha)]; exact Nat.zero_le 1
  | point ha hb =>
    rw [List.count_append, List.count_cons_self, List.count_eq_zero_of_not_mem (point_notMem ha),
      List.count_eq_zero_of_not_mem (point_notMem hb)]

section

variable {whole fraction numeral text : Text} (h : CutAtPoints whole fraction numeral text)
include h

theorem CutAtPoints.isDecimal : IsDecimal numeral := by
  cases h with
  | whole ha => exact .whole ha
  | point ha hb | points ha hb rest => exact .point ha hb

/-- The numeral is the longest one that the text begins with: with one character more it would have a
second point. -/
theorem CutAtPoints.isLongestPrefix : IsLongestPrefix IsDecimal numeral text where
  isPrefix := by
    cases h with
    | whole | point => exact List.prefix_rfl
    | points ha hb rest => exact ⟨'.' :: rest, by simp⟩
  holds := h.isDecimal
  length_le := by
    intro u hu hdecimal
    cases h with
    | whole | point => exact hu.length_le
    | points ha hb rest =>
      by_contra hlonger
      have hnext : whole ++ '.' :: fraction ++ ['.'] <+:
          whole ++ '.' :: (fraction ++ '.' :: rest) := ⟨rest, by simp⟩
      have hwithin : whole ++ '.' :: fraction ++ ['.'] <+: u :=
        List.prefix_of_prefix_length_le hnext hu (by simp at hlonger ⊢; omega)
      have htwo : 2 ≤ (whole ++ '.' :: fraction ++ ['.']).count '.' := by
        simp only [List.count_append, List.count_cons_self, List.count_nil]
        omega
      have hcount := hwithin.sublist.count_le '.'
      have hone := hdecimal.count_point_le
      omega

theorem CutAtPoints.isDigit : ∀ c ∈ whole ++ fraction, c.isDigit = true := by
  intro c hc
  cases h with
  | whole ha => exact ha c (by simpa using hc)
  | point ha hb | points ha hb rest => exact (List.mem_append.1 hc).elim (ha c) (hb c)

/-- The numeral at the front of a text is what the digits before and behind the first point write. -/
theorem CutAtPoints.leading_eq :
    Decimal.leading text = ⟨Nat.ofDigitChars 10 (whole ++ fraction) 0, fraction.length⟩ := by
  have hdigit : ∀ {t : Text}, (∀ c ∈ t, c.isDigit = true) → ∀ c ∈ t, Text.isDigit c = true := by
    intro t ht c hc
    rw [Text.isDigit, digitValue?_of_isDigit (ht c hc)]
    rfl
  have hstop : ∀ rest : Text, ∀ c ∈ ('.' :: rest).head?, Text.isDigit c = false := by
    intro rest c hc
    cases hc
    decide
  rw [← digitsValue_eq h.isDigit]
  cases h with
  | whole ha =>
    rw [Decimal.leading, List.takeWhile_eq_self_iff.2 (hdigit ha),
      List.dropWhile_eq_nil_iff.2 (hdigit ha)]
    rfl
  | point ha hb =>
    rw [Decimal.leading, List.takeWhile_run (hdigit ha) (hstop _), List.dropWhile_run (hdigit ha) (hstop _)]
    show Decimal.ofParts whole (fraction.takeWhile Text.isDigit) = _
    rw [List.takeWhile_eq_self_iff.2 (hdigit hb)]
    rfl
  | points ha hb rest =>
    rw [Decimal.leading, List.takeWhile_run (hdigit ha) (hstop _), List.dropWhile_run (hdigit ha) (hstop _)]
    show Decimal.ofParts whole ((fraction ++ '.' :: rest).takeWhile Text.isDigit) = _
    rw [List.takeWhile_run (hdigit hb) (hstop _)]
    rfl

theorem CutAtPoints.value_eq {α : Type} [Scalar α] : ((number text).value : α) =
    Scalar.ofDecimal ⟨Nat.ofDigitChars 10 (whole ++ fraction) 0, fraction.length⟩ := by
  rw [Token.value, h.leading_eq]

/-- A numeral with a digit is a literal, of the same value. -/
theorem CutAtPoints.read?_eq (hne : whole ++ fraction ≠ []) :
    Literal.read? numeral = some (number text).value := by
  rw [h.value_eq, ← Double.toFloat_neg_places]
  have hmarks : ∀ d ∈ numeral, d ∈ literalMarks := by
    have hdigits := h.isDigit
    intro d hd
    by_cases hpoint : d = '.'
    · rw [hpoint]
      decide
    · refine mem_literalMarks_of_isDigit (hdigits d ?_)
      cases h with
      | whole ha => simpa using hd
      | point ha hb | points ha hb rest => simpa [hpoint] using hd
  have hfirst : ∃ c cs, numeral = c :: cs ∧ (c.isDigit = true ∨ c = '.') := by
    cases h with
    | whole ha =>
      rw [List.append_nil] at hne
      obtain ⟨c, cs, rfl⟩ := List.exists_cons_of_ne_nil hne
      exact ⟨c, cs, rfl, .inl (ha c List.mem_cons_self)⟩
    | point ha hb | points ha hb rest =>
      cases whole with
      | nil => exact ⟨'.', fraction, rfl, .inr rfl⟩
      | cons c cs => exact ⟨c, _, rfl, .inl (ha c List.mem_cons_self)⟩
  have hread : Literal.read? numeral = (Literal.unsigned? numeral).map Scientific.toFloat := by
    obtain ⟨c, cs, rfl, hc⟩ := hfirst
    exact Literal.read?_of_literalMarks hc hmarks
  have hunsigned : Literal.unsigned? numeral =
      some ⟨Nat.ofDigitChars 10 (whole ++ fraction) 0, -fraction.length⟩ := by
    cases h with
    | whole ha =>
      rw [List.append_nil] at hne ⊢
      exact Literal.unsigned?_digits ha hne
    | point ha hb | points ha hb rest => exact Literal.unsigned?_decimal ha hb hne
  rw [hread, hunsigned, Option.map_some]

end

/-- A text of digits and points falls apart at its first two points, and its value is that of the digits
before the second one: the double nearest to what they write, zero if there are none. These digits make
the longest numeral that the text begins with, which is a literal of the same value if it has a digit.
What stands behind the second point does not matter. -/
theorem value_number {text : Text} (h : ∀ c ∈ text, isNumeral c = true) :
    (∃ whole fraction numeral, CutAtPoints whole fraction numeral text) ∧
    ∀ whole fraction numeral, CutAtPoints whole fraction numeral text →
      IsLongestPrefix IsDecimal numeral text ∧
      (whole ++ fraction = [] → (number text).value = (0.0 : Float)) ∧
      (whole ++ fraction ≠ [] → Literal.read? numeral = some (number text).value) ∧
      Double.IsNearest (Nat.ofDigitChars 10 (whole ++ fraction) 0 / 10 ^ fraction.length)
        (number text).value ∧
      ∀ rest : Text, ((number (whole ++ '.' :: (fraction ++ '.' :: rest))).value : Float) =
        (number text).value := by
  refine ⟨exists_cutAtPoints h, fun whole fraction numeral hcut => ⟨hcut.isLongestPrefix, ?_,
    hcut.read?_eq, ?_, ?_⟩⟩
  · intro hnone
    have hlength : fraction.length = 0 := by
      rw [(List.append_eq_nil_iff.1 hnone).2]
      rfl
    rw [hcut.value_eq, hnone, hlength, Nat.ofDigitChars_nil]
    decide
  · rw [hcut.value_eq]
    exact Double.isNearest_ofDecimal ⟨_, _⟩
  · intro rest
    have hdigits := hcut.isDigit
    have hpoints := CutAtPoints.points (fun c hc => hdigits c (List.mem_append_left _ hc))
      (fun c hc => hdigits c (List.mem_append_right _ hc)) rest
    rw [hpoints.value_eq, hcut.value_eq]

/-- Of a text with three points the numeral ends before the second one. -/
theorem value_number_three_points :
    let text : Text := ['1', '.', '5', '0', '.', '7', '.']
    (∀ c ∈ text, isNumeral c = true) ∧
      CutAtPoints ['1'] ['5', '0'] ['1', '.', '5', '0'] text ∧
      IsLongestPrefix IsDecimal ['1', '.', '5', '0'] text ∧
      Literal.read? ['1', '.', '5', '0'] = some (number text).value ∧
      (number text).value = (1.5 : Float) := by
  intro text
  have hnumerals : ∀ c ∈ text, isNumeral c = true := List.all_eq_true.1 rfl
  have hwhole : ∀ c ∈ ['1'], c.isDigit = true := List.all_eq_true.1 rfl
  have hfraction : ∀ c ∈ ['5', '0'], c.isDigit = true := List.all_eq_true.1 rfl
  have hcut : CutAtPoints ['1'] ['5', '0'] ['1', '.', '5', '0'] text :=
    .points hwhole hfraction ['7', '.']
  obtain ⟨hlongest, -, hread, -⟩ := (value_number hnumerals).2 _ _ _ hcut
  exact ⟨hnumerals, hcut, hlongest, hread (by decide), by decide +kernel⟩

end ZeroCurve.Token

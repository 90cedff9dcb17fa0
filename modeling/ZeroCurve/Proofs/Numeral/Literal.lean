import ZeroCurve.Numeral.Literal
import ZeroCurve.Proofs.List.Basic
import ZeroCurve.Proofs.Numeral.Form

/-!
# Reading plain literals

A literal of ASCII digits, with a point or a power of ten or both, is read as what its digits write and
as the exponent that is left once they count as whole. Blanks, other scripts, underscores and words do
not matter for it.
-/

namespace ZeroCurve.Numeral

/-- The characters of literals without a minus sign. -/
def literalMarks : Text :=
  ['0', '1', '2', '3', '4', '5', '6', '7', '8', '9', '.', 'e', '+', '-']

theorem mem_literalMarks_of_isDigit {c : Char} (h : c.isDigit = true) : c ∈ literalMarks := by
  obtain ⟨hlow, hhigh⟩ := Char.isDigit_iff_toNat.1 h
  have hlt : c.toNat - 48 < 10 := by
    have : '9'.toNat = 57 := rfl
    omega
  have hchar : c = Nat.digitChar (c.toNat - 48) := by
    rw [← Char.toNat_inj, Nat.toNat_digitChar_of_lt_ten hlt]
    have : '0'.toNat = 48 := rfl
    omega
  have hall : ∀ n < 10, Nat.digitChar n ∈ literalMarks := by decide
  rw [hchar]
  exact hall _ hlt

theorem forall_mem_literalMarks {p : Char → Bool} (h : literalMarks.all p = true) {t : Text}
    (ht : ∀ c ∈ t, c ∈ literalMarks) : ∀ c ∈ t, p c = true :=
  fun c hc => List.all_eq_true.1 h c (ht c hc)

theorem digitValue?_of_isDigit {c : Char} (h : c.isDigit = true) :
    Text.digitValue? c = some (c.toNat - '0'.toNat) := by
  obtain ⟨hlow, hhigh⟩ := Char.isDigit_iff_toNat.1 h
  have hzero : '0'.toNat = 48 := rfl
  have hnine : '9'.toNat = 57 := rfl
  have hfirst : (decide (0x30 ≤ c.toNat) && decide (c.toNat < 0x30 + 10)) = true := by
    simp only [Bool.and_eq_true, decide_eq_true_eq]
    omega
  have hfind : Text.zeroDigits.find? (fun z => z ≤ c.toNat && c.toNat < z + 10) = some 0x30 := by
    unfold Text.zeroDigits
    exact List.find?_cons_of_pos hfirst
  rw [Text.digitValue?, hfind]
  rfl

/-- What ASCII digits write is what they write as digits of any script. -/
theorem digitsValue_eq {t : Text} (h : ∀ c ∈ t, c.isDigit = true) :
    Text.digitsValue t = Nat.ofDigitChars 10 t 0 := by
  rw [Text.digitsValue, Nat.ofDigitChars_eq_foldl]
  refine List.foldl_ext _ _ _ fun n c hc => ?_
  rw [digitValue?_of_isDigit (h c hc), Option.getD_some]

namespace Literal

theorem dropUnderscores_of_notMem {t : Text} {last : Char} (ht : '_' ∉ t) (hlast : last ≠ '_') :
    dropUnderscores last t = some t := by
  induction t generalizing last with
  | nil => rw [dropUnderscores, if_neg hlast]
  | cons c t ih =>
    simp only [List.mem_cons, not_or] at ht
    have hguard : (decide (last = '_') && !c.isDigit) = false := by simp [hlast]
    rw [dropUnderscores, if_neg (Ne.symm ht.1), hguard, ih ht.2 (Ne.symm ht.1)]
    rfl

theorem trim_isMargin {t : Text} (h : ∀ c ∈ t, (!isMargin c) = true) :
    Text.trim isMargin t = t := by
  have hnone : ∀ {u : Text}, (∀ c ∈ u, (!isMargin c) = true) → u.dropWhile isMargin = u := by
    intro u hu
    cases u with
    | nil => rfl
    | cons c u => rw [List.dropWhile_cons_of_neg (by simpa using hu c List.mem_cons_self)]
  rw [Text.trim, Text.trimEnd, hnone h, hnone (by simpa using h), List.reverse_reverse]

/-- A literal that begins with a digit or a point is read as its digits and its exponent. -/
theorem read?_of_literalMarks {c : Char} {t : Text} (hc : c.isDigit = true ∨ c = '.')
    (h : ∀ d ∈ c :: t, d ∈ literalMarks) :
    read? (c :: t) = (unsigned? (c :: t)).map Scientific.toFloat := by
  have hmargin := forall_mem_literalMarks (p := fun d => !isMargin d) rfl h
  have hplain := forall_mem_literalMarks (p := fun d => plainDigit d == d) rfl h
  have hscore : '_' ∉ c :: t := fun hmem => absurd (h _ hmem) (by decide)
  have hmap : (c :: t).map plainDigit = c :: t := by
    rw [List.map_congr_left fun d hd => eq_of_beq (hplain d hd), List.map_id']
  have hfirst : c ≠ '-' ∧ c ≠ '+' ∧ c.toLower ≠ 'i' ∧ c.toLower ≠ 'n' := by
    have hbegins : (c.isDigit || c == '.') = true := by simpa using hc
    have hstart := forall_mem_literalMarks (p := fun d => !(d.isDigit || d == '.') ||
      (d != '-' && d != '+' && d.toLower != 'i' && d.toLower != 'n')) rfl h c List.mem_cons_self
    rw [hbegins] at hstart
    simpa [and_assoc] using hstart
  have hsize : size? (c :: t) = (unsigned? (c :: t)).map Scientific.toFloat := by
    rw [size?, List.map_cons]
    simp [hfirst.2.2.1, hfirst.2.2.2]
  rw [read?, trim_isMargin hmargin, hmap,
    dropUnderscores_of_notMem hscore (by decide), ← hsize]
  dsimp only [Option.bind_eq_bind, Option.bind_some]
  split
  next heq => exact absurd (List.cons.inj heq).1 hfirst.1
  next heq => exact absurd (List.cons.inj heq).1 hfirst.2.1
  next => rfl

section

variable {whole fraction power : Text} (hwhole : ∀ c ∈ whole, c.isDigit = true)
include hwhole

theorem unsigned?_whole (hne : whole ≠ [])
    (hpower : ∀ c ∈ power.head?, c.isDigit = false ∧ c ≠ '.') :
    unsigned? (whole ++ power) =
      (exponent? power).map fun e => ⟨Nat.ofDigitChars 10 whole 0, e⟩ := by
  have hstop : ∀ c ∈ power.head?, c.isDigit = false := fun c hc => (hpower c hc).1
  unfold unsigned?
  rw [List.takeWhile_run hwhole hstop, List.dropWhile_run hwhole hstop]
  dsimp only
  split
  next rest => exact absurd rfl (hpower '.' rfl).2
  next => simp only [List.append_nil, if_neg hne, digitsValue_eq hwhole, List.length_nil,
    Int.ofNat_zero, Int.sub_zero]

theorem unsigned?_point (hfraction : ∀ c ∈ fraction, c.isDigit = true)
    (hne : whole ++ fraction ≠ []) (hpower : ∀ c ∈ power.head?, c.isDigit = false) :
    unsigned? (whole ++ '.' :: (fraction ++ power)) = (exponent? power).map fun e =>
      ⟨Nat.ofDigitChars 10 (whole ++ fraction) 0, e - fraction.length⟩ := by
  have hstop : ∀ c ∈ ('.' :: (fraction ++ power)).head?, c.isDigit = false := by
    intro c hc
    cases hc
    rfl
  have hdigits : ∀ c ∈ whole ++ fraction, c.isDigit = true := by
    intro c hc
    exact (List.mem_append.1 hc).elim (hwhole c) (hfraction c)
  unfold unsigned?
  rw [List.takeWhile_run hwhole hstop, List.dropWhile_run hwhole hstop]
  simp only [List.takeWhile_run hfraction hpower, List.dropWhile_run hfraction hpower, if_neg hne,
    digitsValue_eq hdigits]

theorem unsigned?_digits (hne : whole ≠ []) :
    unsigned? whole = some ⟨Nat.ofDigitChars 10 whole 0, 0⟩ := by
  have h : unsigned? (whole ++ []) = _ := unsigned?_whole hwhole hne (by simp)
  rw [List.append_nil] at h
  exact h

theorem unsigned?_decimal (hfraction : ∀ c ∈ fraction, c.isDigit = true)
    (hne : whole ++ fraction ≠ []) : unsigned? (whole ++ '.' :: fraction) =
      some ⟨Nat.ofDigitChars 10 (whole ++ fraction) 0, -fraction.length⟩ := by
  have h : unsigned? (whole ++ '.' :: (fraction ++ [])) = _ :=
    unsigned?_point hwhole hfraction hne (by simp)
  rw [List.append_nil] at h
  rw [h, exponent?, Option.map_some, Int.zero_sub]

end

end Literal

end ZeroCurve.Numeral

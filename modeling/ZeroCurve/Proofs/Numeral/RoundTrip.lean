import ZeroCurve.Proofs.Numeral.Literal
import ZeroCurve.Proofs.Numeral.Shortest

/-!
# Reading what was written

The shortest text of a double that is neither negative nor undefined is read as this double again
(`read?_shortest`), so no two of these doubles are written alike.
-/

namespace ZeroCurve.Numeral

open Double
open Float.Model (UnpackedFloat)

theorem IsDigits.mem_literalMarks {t : Text} (h : IsDigits t) : ∀ c ∈ t, c ∈ literalMarks :=
  fun c hc => mem_literalMarks_of_isDigit (h.isDigit c hc)

theorem IsPower.mem_literalMarks {t : Text} (h : IsPower t) : ∀ c ∈ t, c ∈ literalMarks := by
  cases h with
  | mk hsign hdigits =>
    refine List.forall_mem_cons.2 ⟨by decide, List.forall_mem_cons.2 ⟨?_, hdigits.mem_literalMarks⟩⟩
    rcases hsign with rfl | rfl <;> decide

theorem IsLiteral.mem_literalMarks {t : Text} (h : IsLiteral t) : ∀ c ∈ t, c ∈ literalMarks := by
  have hpoint : '.' ∈ literalMarks := by decide
  cases h with
  | point hwhole hfraction =>
    exact List.forall_mem_append.2 ⟨hwhole.mem_literalMarks,
      List.forall_mem_cons.2 ⟨hpoint, hfraction.mem_literalMarks⟩⟩
  | power hwhole hpower =>
    exact List.forall_mem_append.2 ⟨hwhole.mem_literalMarks, hpower.mem_literalMarks⟩
  | pointPower hwhole hfraction hpower =>
    exact List.forall_mem_append.2 ⟨List.forall_mem_append.2 ⟨hwhole.mem_literalMarks,
      List.forall_mem_cons.2 ⟨hpoint, hfraction.mem_literalMarks⟩⟩, hpower.mem_literalMarks⟩

theorem IsDigits.exists_cons {t : Text} (h : IsDigits t) (u : Text) :
    ∃ c cs, t ++ u = c :: cs ∧ c.isDigit = true := by
  obtain ⟨c, cs, rfl⟩ := List.exists_cons_of_ne_nil h.ne_nil
  exact ⟨c, cs ++ u, rfl, h.isDigit c List.mem_cons_self⟩

theorem IsLiteral.exists_cons {t : Text} (h : IsLiteral t) :
    ∃ c cs, t = c :: cs ∧ c.isDigit = true := by
  cases h with
  | point hwhole _ => exact hwhole.exists_cons _
  | power hwhole _ => exact hwhole.exists_cons _
  | pointPower hwhole _ _ =>
    rw [List.append_assoc]
    exact hwhole.exists_cons _

namespace Literal

/-- A literal is read as its digits and its exponent. -/
theorem read?_of_isLiteral {t : Text} (h : IsLiteral t) :
    read? t = (unsigned? t).map Scientific.toFloat := by
  have hmarks := h.mem_literalMarks
  obtain ⟨c, cs, rfl, hc⟩ := h.exists_cons
  exact read?_of_literalMarks (.inl hc) hmarks

theorem ofDigitChars_zeros (n : Nat) (t : Text) :
    Nat.ofDigitChars 10 (zeros n ++ t) 0 = Nat.ofDigitChars 10 t 0 := by
  rw [Nat.ofDigitChars_append, zeros, Nat.ofDigitChars_replicate_zero, Nat.mul_zero]

theorem ofDigitChars_append_zeros (t : Text) (n : Nat) :
    Nat.ofDigitChars 10 (t ++ zeros n) 0 = 10 ^ n * Nat.ofDigitChars 10 t 0 := by
  rw [Nat.ofDigitChars_append, zeros, Nat.ofDigitChars_replicate_zero]

theorem signedWhole?_of_isDigits {t : Text} (h : IsDigits t) (negative : Bool) :
    signedWhole? ((if negative then '-' else '+') :: t) =
      some (signedExponent negative (Nat.ofDigitChars 10 t 0)) := by
  have hguard : (decide (t = []) || t.any (!·.isDigit)) = false := by
    have hany : t.any (!·.isDigit) = false := by
      rw [List.any_eq_false]
      intro c hc
      simp [h.isDigit c hc]
    rw [hany, decide_eq_false h.ne_nil]
    rfl
  rw [← digitsValue_eq h.isDigit]
  cases negative with
  | true =>
    show (if (decide (t = []) || t.any (!·.isDigit)) = true then none
      else some (-(Text.digitsValue t : Int))) = _
    rw [hguard, if_neg Bool.false_ne_true, signedExponent_true]
  | false =>
    show (if (decide (t = []) || t.any (!·.isDigit)) = true then none
      else some (Text.digitsValue t : Int)) = _
    rw [hguard, if_neg Bool.false_ne_true, signedExponent_false]

/-- The mark of a power of ten is read as its exponent. -/
theorem exponent?_exponentMark (e : Int) : exponent? (exponentMark e) = some e := by
  have hdigits : IsDigits (zeros (2 - (Nat.toDigits 10 e.natAbs).length) ++
    Nat.toDigits 10 e.natAbs) := .append_left isDigit_zeros (isDigits_toDigits _)
  have hread := signedWhole?_of_isDigits hdigits (decide (e < 0))
  rw [ofDigitChars_zeros, Nat.ofDigitChars_ten_toDigits, signedExponent_natAbs] at hread
  simp only [decide_eq_true_eq] at hread
  exact hread

theorem head?_exponentMark (e : Int) :
    ∀ c ∈ (exponentMark e).head?, c.isDigit = false ∧ c ≠ '.' := by
  intro c hc
  cases hc
  decide

section

variable {digits : Text} (h : IsDigits digits) (point : Int)
include h

/-- Digits around a point are read as the number that they write. -/
theorem unsigned?_positional : ∃ s, unsigned? (positional digits point) = some s ∧
    s.value = Nat.ofDigitChars 10 digits 0 * 10 ^ (point - digits.length) := by
  have hzero : ∀ c ∈ ['0'], c.isDigit = true := isDigits_zero.isDigit
  unfold positional
  split
  next hpoint =>
    have hdigits := IsDigits.append_left (isDigit_zeros (n := (-point).toNat)) h
    refine ⟨_, unsigned?_decimal hzero hdigits.isDigit (List.cons_ne_nil _ _), ?_⟩
    show (Nat.ofDigitChars 10 (zeros 1 ++ (zeros (-point).toNat ++ digits)) 0 : ℚ) *
      10 ^ (-((zeros (-point).toNat ++ digits).length : Int)) = _
    rw [ofDigitChars_zeros, ofDigitChars_zeros, List.length_append, zeros, List.length_replicate]
    congr 2
    omega
  split
  next hpoint hlong =>
    obtain ⟨k, hk⟩ : ∃ k : Nat, point - digits.length = k := ⟨(point - digits.length).toNat, by omega⟩
    rw [hk, Int.toNat_natCast]
    have hwhole := h.append_right (isDigit_zeros (n := k))
    refine ⟨_, unsigned?_decimal hwhole.isDigit hzero (by simp), ?_⟩
    show (Nat.ofDigitChars 10 (digits ++ zeros k ++ zeros 1) 0 : ℚ) * 10 ^ (-(1 : Int)) = _
    rw [ofDigitChars_append_zeros, ofDigitChars_append_zeros, zpow_neg_one, zpow_natCast]
    push_cast
    field_simp
  next hpoint hlong =>
    have hread := unsigned?_decimal
      (fun c hc => h.isDigit c (List.mem_of_mem_take (i := point.toNat) hc))
      (fun c hc => h.isDigit c (List.mem_of_mem_drop (i := point.toNat) hc))
      (by rw [List.take_append_drop]; exact h.ne_nil)
    rw [List.take_append_drop] at hread
    refine ⟨_, hread, ?_⟩
    show (Nat.ofDigitChars 10 digits 0 : ℚ) * 10 ^ (-((digits.drop point.toNat).length : Int)) = _
    rw [List.length_drop]
    congr 2
    omega

/-- Digits with a power of ten are read as the number that they write. -/
theorem unsigned?_withExponent : ∃ s, unsigned? (withExponent digits (point - 1)) = some s ∧
    s.value = Nat.ofDigitChars 10 digits 0 * 10 ^ (point - digits.length) := by
  have hstop : ∀ c ∈ (exponentMark (point - 1)).head?, c.isDigit = false :=
    fun c hc => (head?_exponentMark _ c hc).1
  unfold withExponent
  split
  next first next rest =>
    have hread : unsigned? ([first] ++ '.' :: (next :: rest ++ exponentMark (point - 1))) = _ :=
      unsigned?_point (fun c hc => h.isDigit c (List.mem_cons.2 (.inl (List.mem_singleton.1 hc))))
        (fun c hc => h.isDigit c (List.mem_cons_of_mem _ hc)) (List.cons_ne_nil _ _) hstop
    rw [exponent?_exponentMark, Option.map_some] at hread
    refine ⟨_, hread, ?_⟩
    show (Nat.ofDigitChars 10 (first :: next :: rest) 0 : ℚ) *
      10 ^ (point - 1 - ((next :: rest).length : Int)) = _
    congr 2
    simp only [List.length_cons]
    omega
  next hshort =>
    have hread := unsigned?_whole h.isDigit h.ne_nil (head?_exponentMark (point - 1))
    rw [exponent?_exponentMark, Option.map_some] at hread
    refine ⟨_, hread, ?_⟩
    have hlength : digits.length = 1 := by
      match digits, h.ne_nil, hshort with
      | [_], _, _ => rfl
      | first :: next :: rest, _, hshort => exact absurd rfl (hshort first next rest)
    rw [Scientific.value, hlength]
    rfl

end

end Literal

open Literal

/-- Digits that are written out, with zeros or with a power of ten, are read as the number they stand
for. -/
theorem unsigned?_laidOut (s : Scientific) (e : Int)
    (he : e = s.digitText.length + s.exponent) : ∃ r,
    unsigned? (if isPositional (e - 1) then positional s.digitText e
      else withExponent s.digitText (e - 1)) = some r ∧ r.value = s.value := by
  have hdigits : IsDigits s.digitText := isDigits_toDigits _
  have hvalue : (Nat.ofDigitChars 10 s.digitText 0 * 10 ^ (e - s.digitText.length) : ℚ) =
      s.value := by
    have hplace : e - s.digitText.length = s.exponent := by omega
    rw [hplace, Scientific.digitText, Nat.ofDigitChars_ten_toDigits, Scientific.value]
  split
  · obtain ⟨r, hr, hrvalue⟩ := unsigned?_positional hdigits e
    exact ⟨r, hr, hrvalue.trans hvalue⟩
  · obtain ⟨r, hr, hrvalue⟩ := unsigned?_withExponent hdigits e
    exact ⟨r, hr, hrvalue.trans hvalue⟩

/-- The shortest text of a positive finite double is read as this double. -/
theorem read?_shortest_of_parts {v : Float} {d : Dyadic} (hparts : Dyadic.ofFloat? v = some d)
    (hnegative : d.negative = false) (hd : 0 < d.mantissa) :
    read? (shortest v) = some v := by
  obtain ⟨r, hr, hvalue⟩ := unsigned?_laidOut (Scientific.shortest d) _ rfl
  have hread : unsigned? (shortest v) = some r := by
    simp only [shortest, signed, hparts, hnegative, Bool.false_eq_true, if_false, if_neg hd.ne']
    exact hr
  have hsame : r.toFloat = v := by
    have hnearest := isNearest_toFloat_scientific r
    rw [hvalue] at hnearest
    exact hnearest.eq (value_shortest_pos hparts hnegative hd).ne'
      (isNearest_shortest hparts hnegative hd)
  rw [read?_of_isLiteral (isLiteral_shortest hparts hnegative), hread, Option.map_some, hsame]

/-- The shortest text of a double is read as this double, if it has no minus sign and is a number. -/
theorem read?_shortest {v : Float} (h : IsNonneg v.toModel.unpack) : read? (shortest v) = some v := by
  have hparts := ofFloat?_eq v
  cases hu : v.toModel.unpack with
  | notANumber =>
    rw [hu] at h
    exact h.elim
  | infinity s =>
    rw [hu] at h
    cases h
    rw [eq_infinity_of_unpack hu]
    rfl
  | zero s =>
    rw [hu] at h
    cases h
    have hzero : v = 0.0 := eq_of_unpack_eq hu
    rw [hzero]
    decide
  | finite s m e hm =>
    rw [hu] at h hparts
    cases h
    exact read?_shortest_of_parts hparts rfl hm

/-- Doubles without a minus sign are told apart by their shortest texts. -/
theorem shortest_inj {v w : Float} (hv : IsNonneg v.toModel.unpack)
    (hw : IsNonneg w.toModel.unpack) : shortest v = shortest w ↔ v = w := by
  constructor
  · intro h
    have hread := read?_shortest hv
    rw [h, read?_shortest hw] at hread
    exact (Option.some_inj.1 hread).symm
  · exact congrArg shortest

end ZeroCurve.Numeral

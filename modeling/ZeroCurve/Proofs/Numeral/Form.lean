import ZeroCurve.Numeral.Layout

/-!
# The form of number text

What a literal looks like, and that the shortest text of a finite double without a minus sign is
one.
-/

namespace ZeroCurve.Numeral

/-- A run of digits. -/
structure IsDigits (t : Text) : Prop where
  ne_nil : t ≠ []
  isDigit : ∀ c ∈ t, c.isDigit = true

/-- A power of ten: its mark, a sign and digits. -/
inductive IsPower : Text → Prop where
  | mk {sign : Char} {digits : Text} (hsign : sign = '+' ∨ sign = '-') (hdigits : IsDigits digits) :
    IsPower ('e' :: sign :: digits)

/-- A number literal: digits with a point and more digits, with a power of ten, or with both. -/
inductive IsLiteral : Text → Prop where
  | point {whole fraction : Text} (hwhole : IsDigits whole) (hfraction : IsDigits fraction) :
    IsLiteral (whole ++ '.' :: fraction)
  | power {whole power : Text} (hwhole : IsDigits whole) (hpower : IsPower power) :
    IsLiteral (whole ++ power)
  | pointPower {whole fraction power : Text} (hwhole : IsDigits whole)
    (hfraction : IsDigits fraction) (hpower : IsPower power) :
    IsLiteral (whole ++ '.' :: fraction ++ power)

theorem isDigits_toDigits (n : Nat) : IsDigits (Nat.toDigits 10 n) where
  ne_nil := Nat.toDigits_ne_nil
  isDigit := fun _ hc => Nat.isDigit_of_mem_toDigits (by decide) (by decide) hc

theorem IsDigits.append_left {a b : Text} (ha : ∀ c ∈ a, c.isDigit = true) (hb : IsDigits b) :
    IsDigits (a ++ b) where
  ne_nil := by simp [hb.ne_nil]
  isDigit := by
    intro c hc
    rcases List.mem_append.1 hc with h | h
    · exact ha c h
    · exact hb.isDigit c h

theorem IsDigits.append_right {a b : Text} (ha : IsDigits a) (hb : ∀ c ∈ b, c.isDigit = true) :
    IsDigits (a ++ b) where
  ne_nil := by simp [ha.ne_nil]
  isDigit := by
    intro c hc
    rcases List.mem_append.1 hc with h | h
    · exact ha.isDigit c h
    · exact hb c h

theorem isDigits_zero : IsDigits ['0'] where
  ne_nil := List.cons_ne_nil _ _
  isDigit := by
    intro c hc
    rw [List.mem_singleton.1 hc]
    rfl

theorem isDigit_zeros {n : Nat} : ∀ c ∈ zeros n, c.isDigit = true := by
  intro c hc
  rw [List.eq_of_mem_replicate hc]
  rfl

theorem isPower_exponentMark (e : Int) : IsPower (exponentMark e) := by
  unfold exponentMark
  refine .mk ?_ (.append_left isDigit_zeros (isDigits_toDigits _))
  split
  · exact .inr rfl
  · exact .inl rfl

theorem isLiteral_positional {digits : Text} (h : IsDigits digits) (point : Int) :
    IsLiteral (positional digits point) := by
  unfold positional
  split
  · exact .point isDigits_zero (.append_left isDigit_zeros h)
  split
  · exact .point (h.append_right isDigit_zeros) isDigits_zero
  · have hpos : 0 < point.toNat := by omega
    have hlt : point.toNat < digits.length := by omega
    refine .point ⟨?_, ?_⟩ ⟨?_, ?_⟩
    · simp [h.ne_nil, Nat.ne_of_gt hpos]
    · exact fun c hc => h.isDigit c (List.mem_of_mem_take hc)
    · simpa using hlt
    · exact fun c hc => h.isDigit c (List.mem_of_mem_drop hc)

theorem isLiteral_withExponent {digits : Text} (h : IsDigits digits) (e : Int) :
    IsLiteral (withExponent digits e) := by
  unfold withExponent
  split
  next first next rest =>
    have hfirst : IsDigits [first] := ⟨by simp, fun c hc => h.isDigit c (by simp_all)⟩
    have hrest : IsDigits (next :: rest) := ⟨by simp, fun c hc => h.isDigit c (by simp_all)⟩
    exact .pointPower hfirst hrest (isPower_exponentMark e)
  next => exact .power h (isPower_exponentMark e)

/-- The shortest text of a finite double is a literal, unless it has a minus sign. -/
theorem isLiteral_shortest {v : Float} {d : Dyadic} (h : Dyadic.ofFloat? v = some d)
    (hd : d.negative = false) : IsLiteral (shortest v) := by
  unfold shortest signed
  simp only [h, hd, Bool.false_eq_true, if_false]
  split
  · exact .point isDigits_zero isDigits_zero
  split
  · exact isLiteral_positional (isDigits_toDigits _) _
  · exact isLiteral_withExponent (isDigits_toDigits _) _

/-- The characters that a number with a fixed number of digits is written with. -/
def isFixedMark (c : Char) : Bool := c.isDigit || ['-', '.', 'n', 'a', 'i', 'f'].contains c

theorem isFixedMark_of_mem_signed {body : Dyadic → Text} {v : Float}
    (h : ∀ d, ∀ c ∈ body d, isFixedMark c = true) : ∀ c ∈ signed body v, isFixedMark c = true := by
  rw [← List.all_eq_true]
  unfold signed
  split
  next d _ =>
    have hbody : (body d).all isFixedMark = true := List.all_eq_true.2 (h d)
    split
    · rw [List.all_cons, hbody]
      rfl
    · exact hbody
  next =>
    split
    · rfl
    · split <;> rfl

theorem isFixedMark_of_mem_fixed {places : Nat} {v : Float} :
    ∀ c ∈ fixed places v, isFixedMark c = true := by
  refine isFixedMark_of_mem_signed fun d => ?_
  have hdigits : ∀ {n m : Nat}, ∀ c ∈ zeros n ++ Nat.toDigits 10 m, isFixedMark c = true := by
    intro n m c hc
    rw [isFixedMark, (IsDigits.append_left isDigit_zeros (isDigits_toDigits m)).isDigit c hc,
      Bool.true_or]
  dsimp only [Scientific.inUnits]
  split
  · exact fun c hc => hdigits c (List.mem_of_mem_take hc)
  · intro c hc
    rcases List.mem_append.1 hc with hc | hc
    · exact hdigits c (List.mem_of_mem_take hc)
    · rcases List.mem_cons.1 hc with rfl | hc
      · rfl
      · exact hdigits c (List.mem_of_mem_drop hc)

end ZeroCurve.Numeral

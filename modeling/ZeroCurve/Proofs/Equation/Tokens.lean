import ZeroCurve.Equation
import ZeroCurve.Proofs.Token.Runs

/-!
# Equations and their tokens

What is made of an equation depends only on the tokens of its text, although the text is cut into its
sides and searched for functions before there are any tokens.
-/

namespace ZeroCurve.Equation

theorem isDropped_carriageReturn : Token.IsDropped '\r' := by
  refine ⟨⟨?_, ?_⟩, ?_⟩ <;> decide

theorem scan_trimEnd_carriageReturn (t : Text) :
    Token.scan (Text.trimEnd (· = '\r') t) = Token.scan t := by
  have hcut : t = Text.trimEnd (· = '\r') t ++ (t.reverse.takeWhile (· = '\r')).reverse := by
    rw [Text.trimEnd, ← List.reverse_append, List.takeWhile_append_dropWhile, List.reverse_reverse]
  have hdropped : ∀ c ∈ (t.reverse.takeWhile (· = '\r')).reverse, Token.IsDropped c := by
    intro c hc
    have hreturn := List.mem_takeWhile_imp (List.mem_reverse.1 hc)
    rw [of_decide_eq_true hreturn]
    exact isDropped_carriageReturn
  conv => rhs; rw [hcut]
  exact (Token.scan_append_dropped hdropped _).symm

/-- A line that is short enough loses the carriage returns at its end only. -/
theorem normalize_eq_trimEnd {t : Text} (hlength : t.length ≤ maxLength) (hline : '\n' ∉ t) :
    normalize t = Text.trimEnd (· = '\r') t := by
  have hwhole : t.takeWhile (· ≠ '\n') = t := by
    rw [List.takeWhile_eq_self_iff]
    intro c hc
    rw [decide_eq_true_eq]
    rintro rfl
    exact hline hc
  have hshort : (Text.trimEnd (· = '\r') t).length ≤ maxLength := by
    refine Nat.le_trans ?_ hlength
    rw [Text.trimEnd, List.length_reverse]
    exact (List.dropWhile_sublist _).length_le.trans_eq List.length_reverse
  rw [normalize, hwhole, List.take_of_length_le hshort]

/-- A line that is short enough loses no token when it is read as an equation. -/
theorem scan_normalize {t : Text} (hlength : t.length ≤ maxLength) (hline : '\n' ∉ t) :
    Token.scan (normalize t) = Token.scan t := by
  rw [normalize_eq_trimEnd hlength hline, scan_trimEnd_carriageReturn]

/-- Scanning the sides of an equation gives the sides of its tokens. -/
theorem scan_sides (e : Equation) :
    (Token.scan e.left, Token.scan e.right) = Token.sides (Token.scan e.text) := by
  unfold left right sides
  cases h : e.text.dropWhile (· ≠ '=') with
  | nil =>
    have hnone : '=' ∉ e.text := by
      intro hmem
      have := List.dropWhile_eq_nil_iff.1 h '=' hmem
      simp at this
    rw [Token.sides_of_notMem (Token.equals_notMem_scan hnone)]
    have hzero : Token.scan ['0'] = [.number ['0']] := by
      rw [Token.scan, if_pos (by decide), List.takeWhile_nil, List.dropWhile_nil, Token.scan]
    rw [hzero]
  | cons c right =>
    have hc : c = '=' := by
      simpa using List.head?_dropWhile_eq_false (· ≠ '=') e.text c (by rw [h]; rfl)
    have hcut : e.text = e.text.takeWhile (· ≠ '=') ++ '=' :: right := by
      rw [hc] at h
      rw [← h, List.takeWhile_append_dropWhile]
    have hnone : '=' ∉ e.text.takeWhile (· ≠ '=') := by
      intro hmem
      have := List.mem_takeWhile_imp hmem
      simp at this
    conv => rhs; rw [hcut]
    rw [Token.scan_append_break ⟨by decide, by decide⟩, Token.scan_equals,
      Token.sides_append (Token.equals_notMem_scan hnone)]

variable {e e' : Equation}

theorem leftTokens_congr (h : Token.scan e.text = Token.scan e'.text) :
    e.leftTokens = e'.leftTokens := by
  have hsides := (scan_sides e).trans (h ▸ (scan_sides e').symm)
  rw [leftTokens, leftTokens, Token.scanUpTo, Token.scanUpTo, (Prod.mk.inj hsides).1]

theorem rightTokens_congr (h : Token.scan e.text = Token.scan e'.text) :
    e.rightTokens = e'.rightTokens := by
  have hsides := (scan_sides e).trans (h ▸ (scan_sides e').symm)
  rw [rightTokens, rightTokens, Token.scanUpTo, Token.scanUpTo, (Prod.mk.inj hsides).2]

theorem source_congr (h : Token.scan e.text = Token.scan e'.text) (name : Text) :
    e.source name = e'.source name := by
  rw [source, source, leftTokens_congr h, rightTokens_congr h]

theorem mentions_congr (h : Token.scan e.text = Token.scan e'.text) (f : Fn) :
    e.mentions f = e'.mentions f := by
  rw [mentions, mentions, Token.mentions_eq_any_scan (Token.isWordOf_name f), h,
    Token.mentions_eq_any_scan (Token.isWordOf_name f)]

theorem isPeriodic_congr (h : Token.scan e.text = Token.scan e'.text) :
    e.isPeriodic = e'.isPeriodic := by
  simp only [isPeriodic, mentions_congr h]

theorem searchWindow_congr {α : Type} [Scalar α] (h : Token.scan e.text = Token.scan e'.text) :
    (e.searchWindow : α × α) = e'.searchWindow := by
  simp only [searchWindow, mentions_congr h]

theorem residual_congr {α : Type} [Scalar α] (h : Token.scan e.text = Token.scan e'.text) :
    (e.residual : Formula α) = e'.residual := by
  rw [residual, residual, leftTokens_congr h, rightTokens_congr h]

end ZeroCurve.Equation

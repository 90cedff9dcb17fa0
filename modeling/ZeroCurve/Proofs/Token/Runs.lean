import ZeroCurve.Proofs.List.Basic
import ZeroCurve.Proofs.Text.Mentions
import ZeroCurve.Token.Scan

/-!
# Tokens and the text they come from

A character that is neither a numeral nor a letter ends the run before it, so the text may be cut
there and its parts scanned apart. From this follows what else the tokens of a text tell of it: the
tokens of the two sides of an equation, and which words of letters the text mentions.
-/

namespace ZeroCurve.Token

/-- Whether a character belongs to no run. -/
def IsBreak (c : Char) : Prop := isNumeral c = false ∧ isLetter c = false

/-- Whether a character stands in no token. -/
def IsDropped (c : Char) : Prop := IsBreak c ∧ ofSign? c = none

/-- The tokens of a text that is cut before a break are those of its parts. -/
theorem scan_append_break {c : Char} (hc : IsBreak c) (t u : Text) :
    scan (t ++ c :: u) = scan t ++ scan (c :: u) := by
  fun_induction scan t with
  | case1 => rfl
  | case2 d t hd ih =>
    rw [List.cons_append, scan, if_pos hd, List.takeWhile_append_break hc.1, List.dropWhile_append_break hc.1,
      ih, List.cons_append]
  | case3 d t hnumeral hd ih =>
    rw [List.cons_append, scan, if_neg hnumeral, if_pos hd, List.takeWhile_append_break hc.2,
      List.dropWhile_append_break hc.2, ih, List.cons_append]
  | case4 d t hnumeral hletter s hs ih =>
    rw [List.cons_append, scan, if_neg hnumeral, if_neg hletter, hs, ih, List.cons_append]
  | case5 d t hnumeral hletter hs ih =>
    rw [List.cons_append, scan, if_neg hnumeral, if_neg hletter, hs, ih]

theorem scan_cons_dropped {c : Char} (hc : IsDropped c) (t : Text) : scan (c :: t) = scan t := by
  rw [scan, hc.1.1, hc.1.2, hc.2]
  rfl

/-- Dropped characters at the end of a text leave no trace in its tokens. -/
theorem scan_append_dropped {s : Text} (hs : ∀ c ∈ s, IsDropped c) (t : Text) :
    scan (t ++ s) = scan t := by
  have hnil : scan s = [] := by
    induction s with
    | nil => rw [scan]
    | cons c s ih =>
      rw [scan_cons_dropped (hs c List.mem_cons_self)]
      exact ih fun d hd => hs d (List.mem_cons_of_mem c hd)
  cases s with
  | nil => rw [List.append_nil]
  | cons c s => rw [scan_append_break (hs c List.mem_cons_self).1, hnil, List.append_nil]

/-- The characters of a token are characters of its text. -/
theorem text_subset_of_mem_scan {t : Text} {token : Token} (h : token ∈ scan t) :
    token.text ⊆ t := by
  fun_induction scan t with
  | case1 => cases h
  | case2 d t hd ih =>
    rcases List.mem_cons.1 h with rfl | h
    · exact List.cons_subset_cons d (List.takeWhile_subset _)
    · exact List.Subset.trans (ih h)
        (List.Subset.trans (List.dropWhile_subset _) (List.subset_cons_self d t))
  | case3 d t hnumeral hd ih =>
    rcases List.mem_cons.1 h with rfl | h
    · rw [text_ofName]
      exact List.cons_subset_cons d (List.takeWhile_subset _)
    · exact List.Subset.trans (ih h)
        (List.Subset.trans (List.dropWhile_subset _) (List.subset_cons_self d t))
  | case4 d t hnumeral hletter s hs ih =>
    rcases List.mem_cons.1 h with rfl | h
    · rw [text_of_ofSign? hs]
      exact List.cons_subset_cons d (List.nil_subset t)
    · exact List.Subset.trans (ih h) (List.subset_cons_self d t)
  | case5 d t hnumeral hletter hs ih =>
    exact List.Subset.trans (ih h) (List.subset_cons_self d t)

theorem isLetter_of_isNumeral {c : Char} (h : isNumeral c = true) : isLetter c = false := by
  simp only [isNumeral, Bool.or_eq_true, Bool.and_eq_true, decide_eq_true_eq, beq_iff_eq,
    Char.le_def, UInt32.le_iff_toNat_le] at h
  simp only [isLetter, Bool.or_eq_false_iff, Bool.and_eq_false_iff, decide_eq_false_iff_not,
    Char.le_def, UInt32.le_iff_toNat_le]
  rcases h with ⟨hlo, hhi⟩ | rfl
  · have h0 : '0'.val.toNat = 48 := rfl
    have h9 : '9'.val.toNat = 57 := rfl
    have ha : 'a'.val.toNat = 97 := rfl
    have hA : 'A'.val.toNat = 65 := rfl
    omega
  · decide

theorem isWordOf_name (f : Fn) : Text.IsWordOf isLetter f.name where
  ne_nil := by cases f <;> decide
  forall_mem := by
    have hall : f.name.all isLetter = true := by cases f <;> rfl
    exact List.all_eq_true.1 hall

/-- A word of letters occurs in a text just if it occurs in one of its tokens. -/
theorem mentions_eq_any_scan {word : Text} (hword : Text.IsWordOf isLetter word) (t : Text) :
    Text.mentions word t = (scan t).any fun token => Text.mentions word token.text := by
  fun_induction scan t with
  | case1 => exact Text.mentions_of_forall_not hword fun c hc => by cases hc
  | case2 d t hd ih =>
    have hrun : ∀ c ∈ d :: t.takeWhile isNumeral, isLetter c = false := by
      intro c hc
      rcases List.mem_cons.1 hc with rfl | hc
      · exact isLetter_of_isNumeral hd
      · exact isLetter_of_isNumeral (List.mem_takeWhile_imp hc)
    have hcut : d :: t = (d :: t.takeWhile isNumeral) ++ t.dropWhile isNumeral := by
      rw [List.cons_append, List.takeWhile_append_dropWhile]
    rw [List.any_cons, ← ih, text, Text.mentions_of_forall_not hword hrun, Bool.false_or]
    conv => lhs; rw [hcut, Text.mentions_append_of_forall_not hword hrun]
  | case3 d t hnumeral hd ih =>
    have hcut : d :: t = (d :: t.takeWhile isLetter) ++ t.dropWhile isLetter := by
      rw [List.cons_append, List.takeWhile_append_dropWhile]
    rw [List.any_cons, ← ih, text_ofName]
    conv => lhs; rw [hcut]
    cases hrest : t.dropWhile isLetter with
    | nil =>
      have hnil : Text.mentions word [] = false :=
        Text.mentions_of_forall_not hword fun c hc => by cases hc
      rw [List.append_nil, hnil, Bool.or_false]
    | cons c u =>
      have hc : isLetter c = false :=
        List.head?_dropWhile_eq_false isLetter t c (by rw [hrest]; rfl)
      exact Text.mentions_append_break hword hc _ u
  | case4 d t hnumeral hletter s hs ih =>
    have hd : isLetter d = false := by simpa using hletter
    have htoken : Text.mentions word s.text = false := by
      rw [text_of_ofSign? hs]
      refine Text.mentions_of_forall_not hword fun c hc => ?_
      rw [List.mem_singleton.1 hc]
      exact hd
    rw [List.any_cons, ← ih, htoken, Bool.false_or, Text.mentions_cons_break hword hd]
  | case5 d t hnumeral hletter hs ih =>
    rw [← ih, Text.mentions_cons_break hword (by simpa using hletter)]

/-- The tokens before and behind the first equals sign, the number zero standing for a missing right
side. -/
def sides (ts : List Token) : List Token × List Token :=
  match ts.dropWhile (· ≠ .equals) with
  | [] => (ts, [.number ['0']])
  | _ :: right => (ts.takeWhile (· ≠ .equals), right)

theorem scan_equals (t : Text) : scan ('=' :: t) = .equals :: scan t := by
  rw [scan]
  rfl

theorem equals_notMem_scan {t : Text} (h : '=' ∉ t) : Token.equals ∉ scan t :=
  fun hequals => h (text_subset_of_mem_scan hequals List.mem_cons_self)

theorem sides_of_notMem {ts : List Token} (h : Token.equals ∉ ts) :
    sides ts = (ts, [.number ['0']]) := by
  have hall : ts.dropWhile (· ≠ .equals) = [] := by
    rw [List.dropWhile_eq_nil_iff]
    intro t ht
    rw [decide_eq_true_eq]
    rintro rfl
    exact h ht
  rw [sides, hall]

theorem sides_append {left : List Token} (h : Token.equals ∉ left) (right : List Token) :
    sides (left ++ .equals :: right) = (left, right) := by
  have hall : ∀ t ∈ left, decide (t ≠ Token.equals) = true := by
    intro t ht
    rw [decide_eq_true_eq]
    rintro rfl
    exact h ht
  rw [sides, List.dropWhile_append_of_pos hall, List.takeWhile_append_of_pos hall,
    List.dropWhile_cons_of_neg (by simp), List.takeWhile_cons_of_neg (by simp), List.append_nil]

end ZeroCurve.Token

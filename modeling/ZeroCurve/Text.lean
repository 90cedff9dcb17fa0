/-!
# Text

A text is a list of characters. It is cut into lines at line feeds only, so `joinLines` undoes
`splitLines` (`joinLines_splitLines`), and `splitLines` undoes `joinLines` on a non-empty list of
lines without line feeds (`splitLines_joinLines`).
-/

namespace ZeroCurve

/-- Text as the list of its characters (code points). -/
abbrev Text := List Char

namespace Text

/-- The lines of a text: one more than it has line feeds. -/
def splitLines : Text → List Text
  | [] => [[]]
  | c :: cs =>
    if c = '\n' then [] :: splitLines cs
    else
      match splitLines cs with
      | [] => [[c]]
      | line :: rest => (c :: line) :: rest

/-- The parts with `gap` between each two. -/
def joinWith (gap : Text) : List Text → Text
  | [] => []
  | [part] => part
  | part :: next :: rest => part ++ gap ++ joinWith gap (next :: rest)

/-- The lines with one line feed between each two. -/
def joinLines (lines : List Text) : Text := joinWith ['\n'] lines

/-- Whether `word` occurs somewhere in the text as a run of neighbouring characters. -/
def mentions (word : Text) : Text → Bool
  | [] => word.isEmpty
  | c :: cs => word.isPrefixOf (c :: cs) || mentions word cs

/-- The text without the characters at its end that satisfy `p`. -/
def trimEnd (p : Char → Bool) (t : Text) : Text :=
  (t.reverse.dropWhile p).reverse

/-- The text without the characters at both ends that satisfy `p`. -/
def trim (p : Char → Bool) (t : Text) : Text :=
  trimEnd p (t.dropWhile p)

theorem splitLines_ne_nil (t : Text) : splitLines t ≠ [] := by
  cases t with
  | nil => simp [splitLines]
  | cons c cs =>
    simp only [splitLines]
    split
    · simp
    · split <;> simp

theorem joinWith_cons (gap part : Text) {rest : List Text} (h : rest ≠ []) :
    joinWith gap (part :: rest) = part ++ gap ++ joinWith gap rest := by
  cases rest with
  | nil => exact absurd rfl h
  | cons next rest => rfl

theorem joinWith_cons_cons (gap : Text) (c : Char) (part : Text) (rest : List Text) :
    joinWith gap ((c :: part) :: rest) = c :: joinWith gap (part :: rest) := by
  cases rest <;> rfl

theorem joinLines_splitLines (t : Text) : joinLines (splitLines t) = t := by
  induction t with
  | nil => rfl
  | cons c cs ih =>
    unfold joinLines at ih ⊢
    by_cases hc : c = '\n'
    · rw [splitLines, if_pos hc, joinWith_cons _ _ (splitLines_ne_nil cs), ih, hc]
      rfl
    · cases h : splitLines cs with
      | nil => exact absurd h (splitLines_ne_nil cs)
      | cons line rest =>
        rw [h] at ih
        rw [splitLines, if_neg hc, h, joinWith_cons_cons, ih]

theorem splitLines_of_notMem {t : Text} (h : '\n' ∉ t) : splitLines t = [t] := by
  induction t with
  | nil => rfl
  | cons c cs ih =>
    simp only [List.mem_cons, not_or] at h
    rw [splitLines, if_neg (Ne.symm h.1), ih h.2]

theorem splitLines_append_lineFeed {t : Text} (h : '\n' ∉ t) (u : Text) :
    splitLines (t ++ '\n' :: u) = t :: splitLines u := by
  induction t with
  | nil => rfl
  | cons c cs ih =>
    simp only [List.mem_cons, not_or] at h
    rw [List.cons_append, splitLines, if_neg (Ne.symm h.1), ih h.2]

/-- Joined lines split where they were joined. -/
theorem splitLines_joinLines {lines : List Text} (hne : lines ≠ []) (h : ∀ t ∈ lines, '\n' ∉ t) :
    splitLines (joinLines lines) = lines := by
  induction lines with
  | nil => exact absurd rfl hne
  | cons line rest ih =>
    cases hr : rest with
    | nil => exact splitLines_of_notMem (h line List.mem_cons_self)
    | cons next more =>
      rw [← hr]
      have hrest : rest ≠ [] := by simp [hr]
      have := ih hrest fun t ht => h t (List.mem_cons_of_mem line ht)
      unfold joinLines at this ⊢
      rw [joinWith_cons _ _ hrest, List.append_assoc, List.singleton_append,
        splitLines_append_lineFeed (h line List.mem_cons_self), this]

end Text

end ZeroCurve

import ZeroCurve.Text

/-!
# Words of one class of characters

A word all of whose characters are of one class is found in a text only within a run of that class.
So a text that is cut where a run ends mentions the words that its two parts mention.
-/

namespace ZeroCurve.Text

/-- The search for a word tries every place of the text. -/
theorem mentions_iff {word t : Text} : mentions word t = true ↔ word <:+: t := by
  induction t with
  | nil => rw [mentions, List.isEmpty_iff, List.infix_nil]
  | cons c t ih =>
    rw [mentions, Bool.or_eq_true, List.isPrefixOf_iff_prefix, ih, List.infix_cons_iff]

/-- A word of one class of characters. -/
structure IsWordOf (p : Char → Bool) (word : Text) : Prop where
  ne_nil : word ≠ []
  forall_mem : ∀ c ∈ word, p c = true

instance decidableIsWordOf (p : Char → Bool) : DecidablePred (IsWordOf p) := fun word =>
  decidable_of_iff (word ≠ [] ∧ word.all p = true) (by
    rw [List.all_eq_true]
    exact ⟨fun h => ⟨h.1, h.2⟩, fun h => ⟨h.1, h.2⟩⟩)

variable {p : Char → Bool} {word : Text}

theorem isPrefixOf_append_break {c : Char} (hword : ∀ d ∈ word, p d = true) (hc : p c = false)
    (t u : Text) : word.isPrefixOf (t ++ c :: u) = word.isPrefixOf t := by
  induction word generalizing t with
  | nil => rfl
  | cons d word ih =>
    have hd : p d = true := hword d List.mem_cons_self
    have hrest : ∀ d ∈ word, p d = true := fun e he => hword e (List.mem_cons_of_mem d he)
    cases t with
    | nil =>
      have hne : (d == c) = false := by
        rw [beq_eq_false_iff_ne]
        rintro rfl
        rw [hc] at hd
        cases hd
      show ((d == c) && word.isPrefixOf u) = false
      rw [hne, Bool.false_and]
    | cons a t =>
      show ((d == a) && word.isPrefixOf (t ++ c :: u)) = ((d == a) && word.isPrefixOf t)
      rw [ih hrest]

theorem mentions_cons_break {c : Char} (hword : IsWordOf p word) (hc : p c = false) (t : Text) :
    mentions word (c :: t) = mentions word t := by
  have hstart : word.isPrefixOf (c :: t) = word.isPrefixOf [] :=
    isPrefixOf_append_break hword.forall_mem hc [] t
  have hnil : word.isPrefixOf [] = false := by
    cases hw : word with
    | nil => exact absurd hw hword.ne_nil
    | cons d word => rfl
  rw [mentions, hstart, hnil, Bool.false_or]

/-- A text that is cut before a character outside the class. -/
theorem mentions_append_break {c : Char} (hword : IsWordOf p word) (hc : p c = false)
    (t u : Text) :
    mentions word (t ++ c :: u) = (mentions word t || mentions word (c :: u)) := by
  induction t with
  | nil =>
    have hempty : mentions word [] = false := by
      rw [mentions, List.isEmpty_eq_false_iff]
      exact hword.ne_nil
    rw [List.nil_append, hempty, Bool.false_or]
  | cons a t ih =>
    have hstart := isPrefixOf_append_break hword.forall_mem hc (a :: t) u
    rw [List.cons_append] at hstart ⊢
    show (word.isPrefixOf (a :: (t ++ c :: u)) || mentions word (t ++ c :: u)) =
      ((word.isPrefixOf (a :: t) || mentions word t) || mentions word (c :: u))
    rw [hstart, ih, Bool.or_assoc]

/-- A run of characters outside the class in front of a text. -/
theorem mentions_append_of_forall_not {s : Text} (hword : IsWordOf p word)
    (hs : ∀ c ∈ s, p c = false) (t : Text) : mentions word (s ++ t) = mentions word t := by
  induction s with
  | nil => rfl
  | cons c s ih =>
    rw [List.cons_append, mentions_cons_break hword (hs c List.mem_cons_self)]
    exact ih fun d hd => hs d (List.mem_cons_of_mem c hd)

theorem mentions_of_forall_not {s : Text} (hword : IsWordOf p word)
    (hs : ∀ c ∈ s, p c = false) : mentions word s = false := by
  have h := mentions_append_of_forall_not hword hs []
  rw [List.append_nil] at h
  rw [h, mentions, List.isEmpty_eq_false_iff]
  exact hword.ne_nil

end ZeroCurve.Text

import Mathlib.Data.List.Chain
import ZeroCurve.Proofs.Text.Parts
import ZeroCurve.Text.Wrap

/-!
# Lines filled with words

Wrapping loses no word and changes no order. It cuts the words into lines that are as full as can be:
a line is too wide only if it is one word, and the word behind a line has no room on it
(`wrap_fills`). So no line is wider than the screen if each word has room beside the head
(`length_le_of_mem_hang`).
-/

namespace ZeroCurve.Text

variable {width : Nat}

/-- Words on one line. -/
def line (words : List Text) : Text := joinWith [' '] words

theorem line_concat {words : List Text} (h : words ≠ []) (word : Text) :
    line (words ++ [word]) = line words ++ ' ' :: word := by
  rw [line, joinWith_concat _ h, List.append_assoc]
  rfl

/-- Whether words may stand on one line: there is room for them, or it is only one. -/
def Fits (width : Nat) (words : List Text) : Prop :=
  (line words).length ≤ width ∨ ∃ word, words = [word]

/-- Whether the word that comes first below a line has no room on it. -/
def IsFull (width : Nat) (words below : List Text) : Prop :=
  ∀ word ∈ below.head?, width < (line (words ++ [word])).length

/-- A cut of words into lines, each with as many words as it has room for. -/
structure IsFilled (width : Nat) (cut : List (List Text)) : Prop where
  nil_notMem : [] ∉ cut
  fits : ∀ words ∈ cut, Fits width words
  full : cut.IsChain (IsFull width)

theorem IsFilled.cons {words below : List Text} {cut : List (List Text)}
    (h : IsFilled width (below :: cut)) (hne : words ≠ []) (hfits : Fits width words)
    (hfull : IsFull width words below) : IsFilled width (words :: below :: cut) where
  nil_notMem := by
    rw [List.mem_cons, not_or]
    exact ⟨hne.symm, h.nil_notMem⟩
  fits := List.forall_mem_cons.2 ⟨hfits, h.fits⟩
  full := h.full.cons_cons hfull

/-- Words behind others: the first line begins with those that stand there already. -/
theorem fill_fills (words : List Text) {begun : List Text} (hne : begun ≠ [])
    (hfits : Fits width begun) :
    ∃ more cut, IsFilled width ((begun ++ more) :: cut) ∧ more ++ cut.flatten = words ∧
      fill width (line begun) words = line (begun ++ more) :: cut.map line := by
  induction words generalizing begun with
  | nil =>
    refine ⟨[], [], ⟨?_, ?_, List.isChain_singleton _⟩, rfl, ?_⟩
    · simpa using hne.symm
    · simpa using hfits
    · rw [List.append_nil]
      rfl
  | cons word rest ih =>
    rw [fill]
    split
    next hroom =>
      have hbegun : Fits width (begun ++ [word]) := by
        left
        rw [line_concat hne, List.length_append, List.length_cons]
        omega
      obtain ⟨more, cut, hcut, hflatten, hfill⟩ := ih (by simp) hbegun
      rw [List.append_assoc, List.singleton_append] at hcut hfill
      refine ⟨word :: more, cut, hcut, congrArg (word :: ·) hflatten, ?_⟩
      rw [← line_concat hne, hfill]
    next hroom =>
      obtain ⟨more, cut, hcut, hflatten, hfill⟩ :=
        ih (List.cons_ne_nil word []) (.inr ⟨word, rfl⟩)
      refine ⟨[], (word :: more) :: cut, ?_, congrArg (word :: ·) hflatten, ?_⟩
      · rw [List.append_nil]
        refine hcut.cons hne hfits fun first hfirst => ?_
        cases hfirst
        rw [line_concat hne, List.length_append, List.length_cons]
        omega
      · rw [List.append_nil]
        exact congrArg (line begun :: ·) hfill

/-- Wrapping fills lines with the words, in their order. -/
theorem wrap_fills (width : Nat) (words : List Text) :
    ∃ cut, IsFilled width cut ∧ cut.flatten = words ∧ wrap width words = cut.map line := by
  cases words with
  | nil => exact ⟨[], ⟨List.not_mem_nil, List.forall_mem_nil _, List.isChain_nil⟩, rfl, rfl⟩
  | cons word rest =>
    obtain ⟨more, cut, hcut, hflatten, hfill⟩ :=
      fill_fills rest (List.cons_ne_nil word []) (.inr ⟨word, rfl⟩)
    exact ⟨(word :: more) :: cut, hcut, congrArg (word :: ·) hflatten, hfill⟩

theorem length_le_of_mem_wrap {words : List Text} (h : ∀ word ∈ words, word.length ≤ width)
    {t : Text} (ht : t ∈ wrap width words) : t.length ≤ width := by
  obtain ⟨cut, hcut, rfl, hwrap⟩ := wrap_fills width words
  rw [hwrap, List.mem_map] at ht
  obtain ⟨group, hgroup, rfl⟩ := ht
  rcases hcut.fits group hgroup with hfits | ⟨word, rfl⟩
  · exact hfits
  · exact h word (List.mem_flatten.2 ⟨[word], hgroup, List.mem_singleton_self word⟩)

/-- No line is too wide if each word has room beside the head. -/
theorem length_le_of_mem_hang {head : Text} {words : List Text} (hhead : head.length ≤ width)
    (h : ∀ word ∈ words, head.length + word.length ≤ width) {t : Text}
    (ht : t ∈ hang width head words) : t.length ≤ width := by
  have hlines : ∀ u ∈ wrap (width - head.length) words, head.length + u.length ≤ width := by
    intro u hu
    have := length_le_of_mem_wrap (fun word hword => Nat.le_sub_of_add_le' (h word hword)) hu
    omega
  rw [hang] at ht
  split at ht
  next => rwa [List.mem_singleton.1 ht]
  next first rest hwrap =>
    rw [hwrap, List.forall_mem_cons] at hlines
    rcases List.mem_cons.1 ht with rfl | ht
    · rw [List.length_append]
      exact hlines.1
    · obtain ⟨u, hu, rfl⟩ := List.mem_map.1 ht
      rw [List.length_append, List.length_replicate]
      exact hlines.2 u hu

end ZeroCurve.Text

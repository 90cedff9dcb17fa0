import Mathlib.Data.List.Basic
import Mathlib.Data.List.TakeWhile

/-!
# Lists

General facts about lists: runs of elements of one class, which end where another element stands, and
lists with one element replaced.
-/

namespace ZeroCurve.List

variable {α : Type} {p : α → Bool}

theorem takeWhile_append_break {c : α} (hc : p c = false) (t u : List α) :
    (t ++ c :: u).takeWhile p = t.takeWhile p := by
  rw [List.takeWhile_append, List.takeWhile_cons_of_neg (by simp [hc]), List.append_nil]
  split
  next h => exact ((List.takeWhile_prefix p).eq_of_length h).symm
  next => rfl

theorem dropWhile_append_break {c : α} (hc : p c = false) (t u : List α) :
    (t ++ c :: u).dropWhile p = t.dropWhile p ++ c :: u := by
  rw [List.dropWhile_append, List.dropWhile_cons_of_neg (by simp [hc])]
  split
  next h => rw [List.isEmpty_iff.1 h, List.nil_append]
  next => rfl

theorem head?_dropWhile_eq_false (p : α → Bool) (t : List α) :
    ∀ c ∈ (t.dropWhile p).head?, p c = false := by
  intro c hc
  have hnot := List.head?_dropWhile_not p t
  rw [Option.mem_def.1 hc] at hnot
  simpa using hnot

variable {run rest : List α}

theorem takeWhile_run (hrun : ∀ c ∈ run, p c = true) (hrest : ∀ c ∈ rest.head?, p c = false) :
    (run ++ rest).takeWhile p = run := by
  rw [List.takeWhile_append_of_pos hrun]
  cases rest with
  | nil => exact List.append_nil run
  | cons c rest => rw [List.takeWhile_cons_of_neg (by simp [hrest c rfl]), List.append_nil]

theorem dropWhile_run (hrun : ∀ c ∈ run, p c = true) (hrest : ∀ c ∈ rest.head?, p c = false) :
    (run ++ rest).dropWhile p = rest := by
  rw [List.dropWhile_append_of_pos hrun]
  cases rest with
  | nil => rfl
  | cons c rest => rw [List.dropWhile_cons_of_neg (by simp [hrest c rfl])]

/-- The parts of a run that is cut behind its first element. -/
theorem run_cons (hne : run ≠ []) (hall : ∀ c ∈ run, p c = true) :
    ∃ c cs, run = c :: cs ∧ p c = true ∧ cs.takeWhile p = cs ∧ cs.dropWhile p = [] := by
  cases run with
  | nil => exact absurd rfl hne
  | cons c cs =>
    have hrest : ∀ d ∈ cs, p d = true := fun d hd => hall d (List.mem_cons_of_mem c hd)
    exact ⟨c, cs, rfl, hall c List.mem_cons_self, List.takeWhile_eq_self_iff.2 hrest,
      List.dropWhile_eq_nil_iff.2 hrest⟩

/-- All elements of a run that goes on from an element of its class. -/
theorem forall_mem_run {c : α} (hc : p c = true) (cs : List α) :
    ∀ d ∈ c :: cs.takeWhile p, p d = true := by
  intro d hd
  rcases List.mem_cons.1 hd with rfl | hd
  · exact hc
  · exact List.mem_takeWhile_imp hd

/-- Of a list with one element replaced the same can be said if it can be said of both elements or of
neither. -/
theorem exists_mem_set {P : α → Prop} {l : List α} {i : Nat} {a b : α}
    (h : l[i]? = some a) (hP : P b ↔ P a) : (∃ x ∈ l.set i b, P x) ↔ ∃ x ∈ l, P x := by
  have hi : i < l.length := (List.getElem?_eq_some_iff.1 h).1
  simp only [List.mem_iff_getElem?]
  constructor
  · rintro ⟨x, ⟨j, hj⟩, hx⟩
    by_cases hij : i = j
    · subst hij
      rw [List.getElem?_set_self hi] at hj
      cases hj
      exact ⟨a, ⟨i, h⟩, hP.1 hx⟩
    · rw [List.getElem?_set_ne hij] at hj
      exact ⟨x, ⟨j, hj⟩, hx⟩
  · rintro ⟨x, ⟨j, hj⟩, hx⟩
    by_cases hij : i = j
    · subst hij
      rw [h] at hj
      cases hj
      exact ⟨b, ⟨i, List.getElem?_set_self hi⟩, hP.2 hx⟩
    · exact ⟨x, ⟨j, (List.getElem?_set_ne hij).trans hj⟩, hx⟩

end ZeroCurve.List

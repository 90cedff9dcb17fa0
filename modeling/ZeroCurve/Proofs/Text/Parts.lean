import Mathlib.Algebra.Ring.Nat
import Mathlib.Data.List.DropRight
import ZeroCurve.Text

/-!
# Joined and trimmed texts

Parts are told apart by the text that they are joined to if they do without the gaps between them
(`joinWith_inj`), or if they are as long as each other (`joinLines_inj`). Trimming twice is trimming once.
-/

namespace ZeroCurve.Text

theorem joinWith_eq_intercalate (gap : Text) (parts : List Text) :
    joinWith gap parts = gap.intercalate parts := by
  fun_induction joinWith gap parts with
  | case1 => rfl
  | case2 => rw [List.intercalate_singleton]
  | case3 part next rest ih => rw [ih, List.intercalate_cons_cons]

theorem joinWith_concat (gap : Text) {parts : List Text} (h : parts ≠ []) (part : Text) :
    joinWith gap (parts ++ [part]) = joinWith gap parts ++ gap ++ part := by
  induction parts with
  | nil => exact absurd rfl h
  | cons first rest ih =>
    by_cases hr : rest = []
    · rw [hr]
      rfl
    · rw [List.cons_append, joinWith_cons _ _ (by simp), joinWith_cons _ _ hr, ih hr]
      simp only [List.append_assoc]

/-- A text that stands between gaps. -/
structure IsPart (gap : Char) (t : Text) : Prop where
  ne_nil : t ≠ []
  gap_notMem : gap ∉ t

theorem joinWith_eq_nil_iff {gap : Char} {parts : List Text} (h : ∀ t ∈ parts, IsPart gap t) :
    joinWith [gap] parts = [] ↔ parts = [] := by
  constructor
  · intro hjoin
    cases parts with
    | nil => rfl
    | cons part rest =>
      obtain ⟨c, cs, rfl⟩ := List.exists_cons_of_ne_nil (h part List.mem_cons_self).ne_nil
      rw [joinWith_cons_cons] at hjoin
      cases hjoin
  · rintro rfl
    rfl

/-- Parts are told apart by the text that they make with a gap between each two. -/
theorem joinWith_inj {gap : Char} {parts parts' : List Text} (h : ∀ t ∈ parts, IsPart gap t)
    (h' : ∀ t ∈ parts', IsPart gap t) :
    joinWith [gap] parts = joinWith [gap] parts' ↔ parts = parts' := by
  constructor
  · intro hjoin
    by_cases hnil : parts = []
    · rw [(joinWith_eq_nil_iff h).2 hnil, eq_comm, joinWith_eq_nil_iff h'] at hjoin
      rw [hnil, hjoin]
    · have hnil' : parts' ≠ [] := by
        rwa [ne_eq, ← joinWith_eq_nil_iff h', ← hjoin, joinWith_eq_nil_iff h]
      rw [joinWith_eq_intercalate, joinWith_eq_intercalate] at hjoin
      have hsplit := congrArg (List.splitOn gap) hjoin
      rw [List.splitOn_intercalate gap (fun t ht => (h t ht).gap_notMem) hnil,
        List.splitOn_intercalate gap (fun t ht => (h' t ht).gap_notMem) hnil'] at hsplit
      exact hsplit
  · exact congrArg (joinWith [gap])

/-- Lines of the same lengths that join to the same text are the same. -/
theorem joinLines_inj {lines lines' : List Text}
    (hlength : lines.map List.length = lines'.map List.length)
    (h : joinLines lines = joinLines lines') : lines = lines' := by
  unfold joinLines at h
  induction lines generalizing lines' with
  | nil =>
    cases lines' with
    | nil => rfl
    | cons line' rest' => cases hlength
  | cons line rest ih =>
    cases lines' with
    | nil => cases hlength
    | cons line' rest' =>
      obtain ⟨hline, hrest⟩ := List.cons.inj hlength
      cases hr : rest with
      | nil =>
        rw [hr, List.map_nil, eq_comm, List.map_eq_nil_iff] at hrest
        rw [hr, hrest] at h
        rw [hrest]
        exact congrArg (· :: []) h
      | cons next more =>
        have hne : rest ≠ [] := by simp [hr]
        have hne' : rest' ≠ [] := by
          rintro rfl
          exact hne (List.map_eq_nil_iff.1 hrest)
        rw [joinWith_cons _ _ hne, joinWith_cons _ _ hne', List.append_assoc,
          List.append_assoc] at h
        obtain ⟨rfl, htail⟩ := List.append_inj h hline
        rw [← hr, ih hrest (List.append_cancel_left htail)]

theorem length_joinLines (line : Text) (rest : List Text) :
    (joinLines (line :: rest)).length = line.length + (rest.map fun t => t.length + 1).sum := by
  unfold joinLines
  induction rest generalizing line with
  | nil => rfl
  | cons next more ih =>
    rw [joinWith_cons _ _ (List.cons_ne_nil _ _), List.length_append, ih, List.length_append,
      List.map_cons, List.sum_cons, List.length_singleton]
    omega

theorem trimEnd_eq_self_iff {p : Char → Bool} {t : Text} :
    trimEnd p t = t ↔ ∀ c ∈ t.getLast?, p c = false := by
  rw [trimEnd, ← List.rdropWhile, List.rdropWhile_eq_self_iff]
  cases h : t.getLast? with
  | none => simp [List.getLast?_eq_none_iff.1 h]
  | some c =>
    obtain ⟨s, rfl⟩ := List.getLast?_eq_some_iff.1 h
    simp

theorem trimEnd_trimEnd (p : Char → Bool) (t : Text) :
    trimEnd p (trimEnd p t) = trimEnd p t :=
  List.rdropWhile_idempotent p t

end ZeroCurve.Text

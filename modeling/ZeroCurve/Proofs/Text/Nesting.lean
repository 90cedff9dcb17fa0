import ZeroCurve.Text

/-!
# Nested parentheses

A text nests within a limit if its parentheses match and no more than so many are open at once. This
is said of the beginnings of the text, and it is what a reader finds that counts the open parentheses
on the way and gives up where there are too many or one is closed that was not opened
(`nests_iff_openBehind`).
-/

namespace ZeroCurve.Text

/-- Whether the parentheses of a text match, no more than `limit` of them in one another. -/
structure Nests (limit : Nat) (t : Text) : Prop where
  count_eq : t.count '(' = t.count ')'
  opened : ∀ u, u <+: t → u.count ')' ≤ u.count '('
  le_limit : ∀ u, u <+: t → u.count '(' ≤ u.count ')' + limit

/-- How many parentheses are open behind a text, if this many are open before it. There is no answer
if one is closed that was not opened, or if more than `limit` would be open at once. -/
def openBehind (limit : Nat) : Nat → Text → Option Nat
  | n, [] => some n
  | n, c :: cs =>
    if c = '(' then if n < limit then openBehind limit (n + 1) cs else none
    else if c = ')' then if 0 < n then openBehind limit (n - 1) cs else none
    else openBehind limit n cs

variable {limit n m : Nat} {t u : Text}

section Step

variable (cs : Text)

theorem openBehind_open (h : n < limit) :
    openBehind limit n ('(' :: cs) = openBehind limit (n + 1) cs := by
  rw [openBehind, if_pos rfl, if_pos h]

theorem openBehind_open_of_le (h : limit ≤ n) : openBehind limit n ('(' :: cs) = none := by
  rw [openBehind, if_pos rfl, if_neg (Nat.not_lt.2 h)]

theorem openBehind_close_zero : openBehind limit 0 (')' :: cs) = none := rfl

theorem openBehind_close_succ :
    openBehind limit (n + 1) (')' :: cs) = openBehind limit n cs := rfl

theorem openBehind_other {c : Char} (hopen : c ≠ '(') (hclose : c ≠ ')') :
    openBehind limit n (c :: cs) = openBehind limit n cs := by
  rw [openBehind, if_neg hopen, if_neg hclose]

end Step

/-- Whether a beginning of a text is in order, with this many parentheses open before the text. -/
def IsInOrder (limit n : Nat) (u : Text) : Prop :=
  u.count ')' ≤ n + u.count '(' ∧ n + u.count '(' ≤ u.count ')' + limit

theorem isInOrder_nil_iff : IsInOrder limit n [] ↔ n ≤ limit := by
  simp [IsInOrder]

theorem isInOrder_open_iff : IsInOrder limit n ('(' :: u) ↔ IsInOrder limit (n + 1) u := by
  rw [IsInOrder, IsInOrder, List.count_cons_self, List.count_cons_of_ne (by decide)]
  omega

theorem isInOrder_close_iff : IsInOrder limit (n + 1) (')' :: u) ↔ IsInOrder limit n u := by
  rw [IsInOrder, IsInOrder, List.count_cons_self, List.count_cons_of_ne (by decide)]
  omega

theorem isInOrder_other_iff {c : Char} (hopen : c ≠ '(') (hclose : c ≠ ')') :
    IsInOrder limit n (c :: u) ↔ IsInOrder limit n u := by
  rw [IsInOrder, IsInOrder, List.count_cons_of_ne hopen, List.count_cons_of_ne hclose]

theorem forall_prefix_cons_iff {c : Char} {p : Text → Prop} :
    (∀ u, u <+: c :: t → p u) ↔ p [] ∧ ∀ u, u <+: t → p (c :: u) := by
  simp only [List.prefix_cons_iff]
  constructor
  · intro h
    exact ⟨h [] (.inl rfl), fun u hu => h (c :: u) (.inr ⟨u, rfl, hu⟩)⟩
  · rintro ⟨hnil, hcons⟩ u (rfl | ⟨v, rfl, hv⟩)
    · exact hnil
    · exact hcons v hv

/-- The reader comes to the end, with the parentheses that are left open, just if all beginnings of
the text are in order. -/
theorem openBehind_eq_some_iff (hn : n ≤ limit) :
    openBehind limit n t = some m ↔
      n + t.count '(' = m + t.count ')' ∧ ∀ u, u <+: t → IsInOrder limit n u := by
  induction t generalizing n with
  | nil => simp [openBehind, isInOrder_nil_iff, hn]
  | cons c t ih =>
    rw [forall_prefix_cons_iff, and_iff_right (isInOrder_nil_iff.2 hn)]
    by_cases hopen : c = '('
    · subst hopen
      simp only [isInOrder_open_iff, List.count_cons_self]
      rw [List.count_cons_of_ne (by decide)]
      rcases Nat.lt_or_ge n limit with hlt | hle
      · rw [openBehind_open t hlt, ih hlt]
        exact and_congr_left' (by omega)
      · rw [openBehind_open_of_le t hle]
        refine iff_of_false nofun fun h => ?_
        have := isInOrder_nil_iff.1 (h.2 [] List.nil_prefix)
        omega
    by_cases hclose : c = ')'
    · subst hclose
      rw [List.count_cons_self, List.count_cons_of_ne (by decide)]
      cases n with
      | zero =>
        rw [openBehind_close_zero]
        refine iff_of_false nofun fun h => ?_
        exact absurd (h.2 [] List.nil_prefix).1 (by decide)
      | succ n =>
        simp only [isInOrder_close_iff]
        rw [openBehind_close_succ, ih (Nat.le_of_succ_le hn)]
        exact and_congr_left' (by omega)
    · simp only [isInOrder_other_iff hopen hclose]
      rw [openBehind_other t hopen hclose, ih hn, List.count_cons_of_ne hopen,
        List.count_cons_of_ne hclose]

/-- A text nests within a limit just if the reader takes it whole, with no parenthesis left open. -/
theorem nests_iff_openBehind : Nests limit t ↔ openBehind limit 0 t = some 0 := by
  rw [openBehind_eq_some_iff (Nat.zero_le limit)]
  simp only [IsInOrder, Nat.zero_add]
  constructor
  · intro h
    exact ⟨h.count_eq, fun u hu => ⟨h.opened u hu, h.le_limit u hu⟩⟩
  · rintro ⟨hcount, hall⟩
    exact ⟨hcount, fun u hu => (hall u hu).1, fun u hu => (hall u hu).2⟩

instance decidableNests : Decidable (Nests limit t) :=
  decidable_of_iff _ nests_iff_openBehind.symm

theorem openBehind_append :
    openBehind limit n (t ++ u) = (openBehind limit n t).bind (openBehind limit · u) := by
  induction t generalizing n with
  | nil => rfl
  | cons c t ih =>
    simp only [List.cons_append, openBehind, ih]
    split
    · split <;> rfl
    · split
      · split <;> rfl
      · rfl

/-- With more parentheses open before it, and room for them, a text leaves as many more open. -/
theorem openBehind_add (hn : n ≤ limit) (h : openBehind limit n t = some m) (k : Nat) :
    openBehind (limit + k) (n + k) t = some (m + k) := by
  rw [openBehind_eq_some_iff hn] at h
  rw [openBehind_eq_some_iff (Nat.add_le_add_right hn k)]
  refine ⟨by omega, fun u hu => ?_⟩
  have horder := h.2 u hu
  unfold IsInOrder at horder ⊢
  omega

theorem Nests.mono {limit' : Nat} (h : Nests limit t) (hle : limit ≤ limit') : Nests limit' t where
  count_eq := h.count_eq
  opened := h.opened
  le_limit := fun u hu => Nat.le_trans (h.le_limit u hu) (Nat.add_le_add_left hle _)

theorem Nests.append (ht : Nests limit t) (hu : Nests limit u) : Nests limit (t ++ u) := by
  rw [nests_iff_openBehind] at ht hu ⊢
  rw [openBehind_append, ht]
  exact hu

/-- Parentheses around a text nest one deeper. -/
theorem Nests.bracket (h : Nests limit t) : Nests (limit + 1) ('(' :: (t ++ [')'])) := by
  rw [nests_iff_openBehind] at h ⊢
  rw [openBehind_open _ (Nat.succ_pos limit), openBehind_append,
    openBehind_add (Nat.zero_le limit) h 1]
  rfl

theorem nests_of_notMem (hopen : '(' ∉ t) (hclose : ')' ∉ t) : Nests limit t := by
  rw [nests_iff_openBehind]
  induction t with
  | nil => rfl
  | cons c t ih =>
    rw [List.mem_cons, not_or] at hopen hclose
    rw [openBehind_other t (Ne.symm hopen.1) (Ne.symm hclose.1)]
    exact ih hopen.2 hclose.2

theorem nests_joinLines {lines : List Text} (h : ∀ line ∈ lines, Nests limit line) :
    Nests limit (joinLines lines) := by
  induction lines with
  | nil => exact nests_of_notMem List.not_mem_nil List.not_mem_nil
  | cons line rest ih =>
    rw [List.forall_mem_cons] at h
    cases rest with
    | nil => exact h.1
    | cons next rest =>
      have hfeed : Nests limit ['\n'] := nests_of_notMem (by decide) (by decide)
      exact (h.1.append hfeed).append (ih h.2)

end ZeroCurve.Text

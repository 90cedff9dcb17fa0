/-!
# Steps along a list

A step that may fail, taken for each element of a list. All of them succeed if each one does, and
otherwise the first that fails decides.
-/

namespace ZeroCurve.List

variable {α β ε : Type}

/-- Steps that all succeed succeed together. -/
theorem mapM_ok {f : α → Except ε β} {g : α → β} {l : List α}
    (h : ∀ a ∈ l, f a = .ok (g a)) : l.mapM f = .ok (l.map g) := by
  induction l with
  | nil => rfl
  | cons a l ih =>
    rw [List.mapM_cons, h a List.mem_cons_self, ih fun b hb => h b (List.mem_cons_of_mem a hb)]
    rfl

/-- Steps that all succeed succeed together, and leave out what has no value. -/
theorem filterMapM_ok {f : α → Except ε (Option β)} {g : α → Option β}
    {l : List α} (h : ∀ a ∈ l, f a = .ok (g a)) : l.filterMapM f = .ok (l.filterMap g) := by
  induction l with
  | nil => rfl
  | cons a l ih =>
    have hrest := ih fun b hb => h b (List.mem_cons_of_mem a hb)
    rw [List.filterMapM_cons, h a List.mem_cons_self]
    cases hg : g a with
    | none =>
      rw [List.filterMap_cons_none hg]
      exact hrest
    | some b =>
      rw [List.filterMap_cons_some hg]
      show (l.filterMapM f >>= fun bs => pure (b :: bs)) = _
      rw [hrest]
      rfl

/-- Steps that succeed together succeed one by one. -/
theorem ok_of_mapM_ok {f : α → Except ε β} {l : List α} {bs : List β}
    (h : l.mapM f = .ok bs) : ∀ a ∈ l, ∃ b, f a = .ok b := by
  induction l generalizing bs with
  | nil => exact fun a ha => absurd ha List.not_mem_nil
  | cons head l ih =>
    rw [List.mapM_cons] at h
    cases hhead : f head with
    | error fault =>
      rw [hhead] at h
      cases h
    | ok b =>
      cases hrest : l.mapM f with
      | error fault =>
        rw [hhead, hrest] at h
        cases h
      | ok rest => exact List.forall_mem_cons.2 ⟨⟨b, hhead⟩, ih hrest⟩

/-- Steps one of which fails fail with the fault of the first one that does. -/
theorem mapM_eq_error_iff {f : α → Except ε β} {l : List α} {e : ε} :
    l.mapM f = .error e ↔
      ∃ (i : Nat) (a : α), l[i]? = some a ∧ f a = .error e ∧
        ∀ j < i, ∀ b, l[j]? = some b → ∃ y, f b = .ok y := by
  induction l with
  | nil =>
    constructor
    · intro h
      cases h
    · rintro ⟨i, a, ha, -⟩
      cases ha
  | cons a l ih =>
    rw [List.mapM_cons]
    cases ha : f a with
    | error fault =>
      constructor
      · intro h
        cases h
        exact ⟨0, a, rfl, ha, fun j hj => absurd hj (Nat.not_lt_zero j)⟩
      · rintro ⟨i, b, hb, hfault, hbefore⟩
        cases i with
        | zero =>
          cases hb
          rw [ha] at hfault
          cases hfault
          rfl
        | succ i =>
          obtain ⟨y, hy⟩ := hbefore 0 (Nat.succ_pos i) a rfl
          rw [ha] at hy
          cases hy
    | ok y =>
      have hrest : ((Except.ok y : Except ε β) >>= fun b => do return b :: (← l.mapM f)) = .error e ↔
          l.mapM f = .error e := by
        cases l.mapM f with
        | error fault =>
          show Except.error fault = Except.error e ↔ _
          simp
        | ok bs =>
          show Except.ok (y :: bs) = Except.error e ↔ _
          simp
      refine hrest.trans (ih.trans ⟨?_, ?_⟩)
      · rintro ⟨i, b, hb, hfault, hbefore⟩
        refine ⟨i + 1, b, hb, hfault, fun j hj c hc => ?_⟩
        cases j with
        | zero =>
          cases hc
          exact ⟨y, ha⟩
        | succ j => exact hbefore j (Nat.lt_of_succ_lt_succ hj) c hc
      · rintro ⟨i, b, hb, hfault, hbefore⟩
        cases i with
        | zero =>
          cases hb
          rw [ha] at hfault
          cases hfault
        | succ i =>
          exact ⟨i, b, hb, hfault, fun j hj c hc => hbefore (j + 1) (Nat.succ_lt_succ hj) c hc⟩

/-- Steps that succeed together succeed one by one, also where some have no value. -/
theorem ok_of_filterMapM_ok {f : α → Except ε (Option β)} {l : List α} {bs : List β}
    (h : l.filterMapM f = .ok bs) : ∀ a ∈ l, ∃ b, f a = .ok b := by
  induction l generalizing bs with
  | nil => exact fun a ha => absurd ha List.not_mem_nil
  | cons head l ih =>
    rw [List.filterMapM_cons] at h
    cases hhead : f head with
    | error fault =>
      rw [hhead] at h
      cases h
    | ok found =>
      refine List.forall_mem_cons.2 ⟨⟨found, hhead⟩, ?_⟩
      rw [hhead] at h
      cases hrest : l.filterMapM f with
      | error fault =>
        cases found <;> (simp only [bind, Except.bind, hrest] at h; cases h)
      | ok rest => exact ih hrest

end ZeroCurve.List

import ZeroCurve.Proofs.Session.Script

/-!
# Asking for a new equation

When the script of the lines read so far ends with the code for a new equation, the session waits
for one, and all it remembers is the default view.
-/

namespace ZeroCurve.Session

variable {α ε : Type} [Scalar α] {draw : Text → View α → Except ε Text}

theorem Unfailing.play_present (h : Unfailing draw) (equation : Text) (view : View α)
    (lines : List Text) (t : Turn (State α) (Result α ε)) :
    ((dialogue draw).play lines (present draw equation view t)).2 =
      ((dialogue draw).play lines t).2 := by
  obtain ⟨picture, hpicture⟩ := h.draw_ok equation view
  rw [present, hpicture]
  exact Dialogue.play_after_snd _ _ _ _

theorem play_reply (line : Text) (lines : List Text) (s : State α) :
    ((dialogue draw).play (line :: lines) (.ask s)).2 =
      ((dialogue draw).play lines ((dialogue draw).reply s line)).2 := by
  rfl

theorem getLast?_of_cons {item last : Item} {rest : List Item}
    (h : (item :: rest).getLast? = some last) (hne : item ≠ last) : rest.getLast? = some last := by
  cases rest with
  | nil => exact absurd (Option.some.inj h) hne
  | cons next rest =>
    rw [List.getLast?_cons_cons] at h
    exact h

variable (draw) in
/-- Whether a session that has read these lines waits for an equation at the default view, if their
script ends with the code for one. When an equation is awaited already, that code may be the last of
the lines before. -/
structure Leads (lines : List Text) : Prop where
  commands : ∀ equation view, (script .commands lines).getLast? = some (.code '7') →
    ((dialogue draw).play lines (.ask (.command equation view))).2 = .ask (.equation View.default)
  equation : ∀ view,
    script .equation lines = [] ∧ view = View.default ∨
        (script .equation lines).getLast? = some (.code '7') →
      ((dialogue draw).play lines (.ask (.equation view))).2 = .ask (.equation View.default)

/-- The codes of a line lead to where the script of the line and the lines behind it ends. -/
theorem Leads.play_obey (hdraw : Unfailing draw) {lines : List Text} (hlines : Leads draw lines)
    (equation : Text) (view : View α) (cs : Text)
    (h : ((taken cs).map Item.code ++ follow (taken cs) lines).getLast? = some (.code '7')) :
    ((dialogue draw).play lines (obey draw equation view cs)).2 =
      .ask (.equation View.default) := by
  induction cs generalizing equation view with
  | nil => exact hlines.commands equation view h
  | cons c cs ih =>
    rcases apply_code_cases view c with ⟨rfl, hnext⟩ | ⟨rfl, hnext⟩ | ⟨hne, hcases⟩
    · have hitems : (taken ('7' :: cs)).map .code ++ follow (taken ('7' :: cs)) lines =
          .code '7' :: script .equation lines := by rfl
      rw [hitems] at h
      rw [obey, hnext]
      refine hlines.equation View.default ?_
      -- this code is the last of all, or the one that leads on is among the lines behind it
      cases hscript : script .equation lines with
      | nil => exact .inl ⟨rfl, rfl⟩
      | cons item rest =>
        rw [hscript, List.getLast?_cons_cons] at h
        exact .inr h
    · have hitems : (taken ('8' :: cs)).map .code ++ follow (taken ('8' :: cs)) lines =
          [.code '8'] := by rfl
      rw [hitems] at h
      cases h
    · rw [taken_cons_of_ne hne, follow_cons_of_ne hne, List.map_cons, List.cons_append] at h
      have hrest := getLast?_of_cons h (by simp [hne.1])
      rw [obey]
      rcases hcases with ⟨fault, hnext⟩ | ⟨next, hnext⟩ | hnext
      · obtain ⟨next, hok⟩ := hdraw.apply_ok view [c]
        rw [hnext] at hok
        cases hok
      · rw [hnext]
        dsimp only
        rw [hdraw.play_present]
        exact ih equation next hrest
      · rw [hnext]
        dsimp only
        rw [Dialogue.play_after_snd, hdraw.play_present]
        exact ih equation view hrest

theorem Unfailing.leads (hdraw : Unfailing draw) (lines : List Text) : Leads draw lines := by
  induction lines with
  | nil =>
    refine ⟨fun equation view h => ?_, fun view h => ?_⟩
    · cases h
    · rcases h with ⟨-, rfl⟩ | h
      · rfl
      · cases h
  | cons line lines ih =>
    refine ⟨fun equation view h => ?_, fun view h => ?_⟩
    · rw [play_reply]
      exact ih.play_obey hdraw equation view (codes line) h
    · rcases h with ⟨h, -⟩ | h
      · cases h
      · rw [script] at h
        have hrest := getLast?_of_cons h (by simp)
        rw [play_reply]
        exact (hdraw.play_present _ _ _ _).trans (ih.commands _ _ hrest)

end ZeroCurve.Session

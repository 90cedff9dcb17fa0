import ZeroCurve.Dialogue

/-!
# Dialogues that cannot be told apart

Two dialogues in states that prompt alike, and that a line always leads to such states again, are
seen alike over all lines. The results may differ in kind and are then translated.
-/

namespace ZeroCurve

variable {σ τ ρ π : Type} {R : σ → τ → Prop} {result : ρ → π}

/-- Whether two turns end alike: in related states or with the same result, up to translation. -/
inductive Next.Matches (R : σ → τ → Prop) (result : ρ → π) : Next σ ρ → Next τ π → Prop where
  | ask {s : σ} {s' : τ} (h : R s s') : Matches R result (.ask s) (.ask s')
  | finish (r : ρ) : Matches R result (.finish r) (.finish (result r))

/-- Whether two turns do the same and end alike. -/
structure Turn.Matches (R : σ → τ → Prop) (result : ρ → π) (t : Turn σ ρ) (u : Turn τ π) :
    Prop where
  acts : t.acts = u.acts
  next : t.next.Matches R result u.next

theorem Turn.Matches.after {t : Turn σ ρ} {u : Turn τ π} (h : t.Matches R result u)
    (acts : List Act) : (t.after acts).Matches R result (u.after acts) :=
  ⟨congrArg (acts ++ ·) h.acts, h.next⟩

/-- Whether a dialogue goes as another does from related states on. -/
structure Dialogue.Simulates (d : Dialogue σ ρ) (d' : Dialogue τ π) (R : σ → τ → Prop)
    (result : ρ → π) : Prop where
  prompt : ∀ {s s'}, R s s' → d'.prompt s' = d.prompt s
  reply : ∀ {s s'}, R s s' → ∀ line, (d.reply s line).Matches R result (d'.reply s' line)
  close : ∀ {s s'}, R s s' → d'.close s' = ((d.close s).1, result (d.close s).2)

/-- From turns that match, the same is seen over all lines and the result is the same. -/
theorem Dialogue.Simulates.run_eq {d : Dialogue σ ρ} {d' : Dialogue τ π}
    (h : d.Simulates d' R result) (lines : List Text) {t : Turn σ ρ} {u : Turn τ π}
    (hmatch : t.Matches R result u) :
    d'.run lines u = ⟨(d.run lines t).events, result (d.run lines t).result⟩ := by
  induction lines generalizing t u with
  | nil =>
    obtain ⟨acts, next⟩ := t
    obtain ⟨acts', next'⟩ := u
    obtain ⟨rfl, hnext⟩ := hmatch
    cases hnext with
    | finish r => rfl
    | ask hs => rw [run, run, h.prompt hs, h.close hs]
  | cons line lines ih =>
    obtain ⟨acts, next⟩ := t
    obtain ⟨acts', next'⟩ := u
    obtain ⟨rfl, hnext⟩ := hmatch
    cases hnext with
    | finish r => rfl
    | ask hs => simp only [run, h.prompt hs, ih (h.reply hs line)]

end ZeroCurve

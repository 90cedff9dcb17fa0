import ZeroCurve.Dialogue

/-!
# The course of a dialogue

What is seen of a dialogue while it reads the first of its lines, and how it goes on from there. The
rest depends on the state alone that it then has.
-/

namespace ZeroCurve

/-- The texts that a dialogue writes, in order. -/
def Transcript.writes {ρ : Type} (t : Transcript ρ) : List Text :=
  t.events.filterMap fun
    | .act (.print text) => some text
    | _ => none

namespace Dialogue

variable {σ ρ : Type} (d : Dialogue σ ρ)

/-- What is seen of a dialogue up to where these lines are read, and what comes then. -/
def play : List Text → Turn σ ρ → List Event × Next σ ρ
  | _, ⟨acts, .finish result⟩ => (acts.map .act, .finish result)
  | [], ⟨acts, .ask s⟩ => (acts.map .act, .ask s)
  | line :: lines, ⟨acts, .ask s⟩ =>
    let rest := play lines (d.reply s line)
    (acts.map .act ++ .read (d.prompt s) :: rest.1, rest.2)

theorem run_after (lines : List Text) (acts : List Act) (t : Turn σ ρ) :
    d.run lines (t.after acts) =
      ⟨acts.map .act ++ (d.run lines t).events, (d.run lines t).result⟩ := by
  obtain ⟨own, next⟩ := t
  cases next with
  | finish result => cases lines <;> simp [Turn.after, run]
  | ask s => cases lines <;> simp [Turn.after, run]

theorem play_after_snd (lines : List Text) (acts : List Act) (t : Turn σ ρ) :
    (d.play lines (t.after acts)).2 = (d.play lines t).2 := by
  obtain ⟨own, next⟩ := t
  cases next with
  | finish result => cases lines <;> rfl
  | ask s => cases lines <;> rfl

/-- A dialogue over more lines begins as it does over the first of them, and goes on from there. -/
theorem run_append (past lines : List Text) (t : Turn σ ρ) :
    d.run (past ++ lines) t =
      ⟨(d.play past t).1 ++ (d.run lines ⟨[], (d.play past t).2⟩).events,
        (d.run lines ⟨[], (d.play past t).2⟩).result⟩ := by
  induction past generalizing t with
  | nil =>
    obtain ⟨acts, next⟩ := t
    cases next with
    | finish result => cases lines <;> simp [play, run]
    | ask s => cases lines <;> simp [play, run]
  | cons line past ih =>
    obtain ⟨acts, next⟩ := t
    cases next with
    | finish result => cases lines <;> simp [play, run]
    | ask s =>
      rw [List.cons_append, run, ih]
      simp [play]

/-- What holds of the prompts and of all that single turns do holds of all that is seen of a
dialogue. -/
theorem forall_mem_run {P : Event → Prop} (hprompt : ∀ s, P (.read (d.prompt s)))
    (hreply : ∀ s line, ∀ act ∈ (d.reply s line).acts, P (.act act))
    (hclose : ∀ s, ∀ act ∈ (d.close s).1, P (.act act)) (lines : List Text) {t : Turn σ ρ}
    (ht : ∀ act ∈ t.acts, P (.act act)) : ∀ event ∈ (d.run lines t).events, P event := by
  induction lines generalizing t with
  | nil =>
    obtain ⟨acts, next⟩ := t
    cases next with
    | finish result => exact List.forall_mem_map.2 ht
    | ask s =>
      exact List.forall_mem_append.2 ⟨List.forall_mem_map.2 ht,
        List.forall_mem_cons.2 ⟨hprompt s, List.forall_mem_map.2 (hclose s)⟩⟩
  | cons line lines ih =>
    obtain ⟨acts, next⟩ := t
    cases next with
    | finish result => exact List.forall_mem_map.2 ht
    | ask s =>
      exact List.forall_mem_append.2 ⟨List.forall_mem_map.2 ht,
        List.forall_mem_cons.2 ⟨hprompt s, ih (hreply s line)⟩⟩

end Dialogue

end ZeroCurve

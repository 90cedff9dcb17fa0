import ZeroCurve.Session

/-!
# Asking for a command again

A line without a command is answered by the prompt alone. So where a session asks for a command, it
goes on with the first line that has one, and has asked once for every line up to there.
-/

namespace ZeroCurve.Session

/-- Lines are read up to the first one with commands. -/
theorem readCodes_eq_some_iff {lines rest : List Text} {cs : Text} :
    readCodes lines = some (cs, rest) ↔ ∃ blank line, lines = blank ++ line :: rest ∧
      (∀ skipped ∈ blank, codes skipped = []) ∧ codes line = cs ∧ cs ≠ [] := by
  induction lines with
  | nil =>
    constructor
    · intro h
      cases h
    · rintro ⟨blank, line, hlines, -⟩
      cases blank <;> cases hlines
  | cons line lines ih =>
    rw [readCodes]
    split
    next hblank =>
      rw [ih]
      constructor
      · rintro ⟨blank, found, rfl, hskipped, hcodes⟩
        exact ⟨line :: blank, found, rfl, List.forall_mem_cons.2 ⟨hblank, hskipped⟩, hcodes⟩
      · rintro ⟨blank, found, hlines, hskipped, rfl, hne⟩
        cases blank with
        | nil =>
          cases hlines
          exact absurd hblank hne
        | cons first blank =>
          cases hlines
          exact ⟨blank, found, rfl, (List.forall_mem_cons.1 hskipped).2, rfl, hne⟩
    next hcodes =>
      constructor
      · intro h
        cases h
        exact ⟨[], line, rfl, List.forall_mem_nil _, rfl, hcodes⟩
      · rintro ⟨blank, found, hlines, hskipped, rfl, -⟩
        cases blank with
        | nil =>
          cases hlines
          rfl
        | cons first blank =>
          cases hlines
          exact absurd (List.forall_mem_cons.1 hskipped).1 hcodes

theorem readCodes_eq_none_iff {lines : List Text} :
    readCodes lines = none ↔ ∀ line ∈ lines, codes line = [] := by
  induction lines with
  | nil => exact iff_of_true rfl (List.forall_mem_nil _)
  | cons line lines ih =>
    rw [readCodes, List.forall_mem_cons]
    split
    next hblank => rw [ih, and_iff_right hblank]
    next hcodes => exact iff_of_false nofun fun h => hcodes h.1

theorem length_lt_of_readCodes {lines rest : List Text} {cs : Text}
    (h : readCodes lines = some (cs, rest)) : rest.length < lines.length := by
  obtain ⟨blank, line, rfl, -⟩ := readCodes_eq_some_iff.1 h
  rw [List.length_append, List.length_cons]
  omega

variable {α ε : Type} [Scalar α] (draw : Text → View α → Except ε Text) (equation : Text)
  (view : View α)

/-- The prompt for a command, this many times. -/
def prompts (count : Nat) : List Event := List.replicate count (.read "Choose option: ".toList)

theorem prompts_add (m n : Nat) : prompts (m + n) = prompts m ++ prompts n :=
  List.replicate_append_replicate.symm

/-- A line without commands changes nothing, and the session asks again. -/
theorem run_blank {line : Text} (h : codes line = []) (lines : List Text) :
    (dialogue draw).run (line :: lines) (.ask (.command equation view)) =
      ⟨prompts 1 ++ ((dialogue draw).run lines (.ask (.command equation view))).events,
        ((dialogue draw).run lines (.ask (.command equation view))).result⟩ := by
  have hreply : (dialogue draw).reply (.command equation view) line =
      .ask (.command equation view) := by
    show obey draw equation view (codes line) = _
    rw [h, obey]
  show (⟨_, ((dialogue draw).run lines ((dialogue draw).reply _ line)).result⟩ : Transcript _) = _
  rw [hreply]
  rfl

/-- Where a session asks for a command, it obeys what is read first, and has asked once for each line
that this has taken; it ends if nothing is read. -/
theorem run_ask_command (lines : List Text) :
    (dialogue draw).run lines (.ask (.command equation view)) =
      match readCodes lines with
      | some (cs, rest) =>
        ⟨prompts (lines.length - rest.length) ++
            ((dialogue draw).run rest (obey draw equation view cs)).events,
          ((dialogue draw).run rest (obey draw equation view cs)).result⟩
      | none => ⟨prompts (lines.length + 1) ++ [.act (.print [])], .ok view⟩ := by
  induction lines with
  | nil => rfl
  | cons line lines ih =>
    by_cases hblank : codes line = []
    · rw [run_blank draw equation view hblank, ih, readCodes, if_pos hblank]
      cases hread : readCodes lines with
      | none =>
        show (⟨prompts 1 ++ (prompts (lines.length + 1) ++ _), _⟩ : Transcript _) = _
        rw [← List.append_assoc, ← prompts_add, Nat.add_comm 1]
        rfl
      | some found =>
        obtain ⟨cs, rest⟩ := found
        have hlength := length_lt_of_readCodes hread
        have hcount : (line :: lines).length - rest.length = 1 + (lines.length - rest.length) := by
          rw [List.length_cons]
          omega
        dsimp only
        rw [hcount, prompts_add, List.append_assoc]
    · rw [readCodes, if_neg hblank]
      dsimp only
      rw [List.length_cons, Nat.add_sub_cancel_left]
      rfl

end ZeroCurve.Session

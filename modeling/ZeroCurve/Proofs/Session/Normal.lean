import ZeroCurve.Proofs.Dialogue.Simulation
import ZeroCurve.Proofs.Equation.Normal
import ZeroCurve.Proofs.Picture.Tokens
import ZeroCurve.Session

/-!
# Sessions see an equation by its pictures

Whatever line a session holds as its equation, it does nothing with it but draw it. So sessions with
equations that look alike at every view go alike, and an equation that is normalized more often than
once is such an equation.
-/

namespace ZeroCurve.Session

variable {α ε : Type} [Scalar α] {draw : Text → View α → Except ε Text}

/-- Whether two lines have the same picture at every view. -/
def LookAlike (draw : Text → View α → Except ε Text) (line line' : Text) : Prop :=
  ∀ view, draw line view = draw line' view

/-- States that differ at most in the equation, and not in its pictures. -/
inductive Alike (draw : Text → View α → Except ε Text) : State α → State α → Prop where
  | command {line line' : Text} (h : LookAlike draw line line') (view : View α) :
      Alike draw (.command line view) (.command line' view)
  | equation (view : View α) : Alike draw (.equation view) (.equation view)

variable {line line' : Text} {t u : Turn (State α) (Result α ε)}

theorem LookAlike.matches_present (h : LookAlike draw line line') (view : View α)
    (hmatch : t.Matches (Alike draw) id u) :
    (present draw line view t).Matches (Alike draw) id (present draw line' view u) := by
  unfold present
  rw [h view]
  cases draw line' view with
  | error fault => exact ⟨rfl, .finish _⟩
  | ok picture => exact hmatch.after _

theorem LookAlike.matches_obey (h : LookAlike draw line line') (view : View α) (cs : Text) :
    (obey draw line view cs).Matches (Alike draw) id (obey draw line' view cs) := by
  -- the codes lead both sessions to the same views, so only the pictures on the way could differ
  induction cs generalizing view with
  | nil => exact ⟨rfl, .ask (.command h view)⟩
  | cons c cs ih =>
    rw [obey, obey]
    cases view.apply [c] with
    | error fault => exact ⟨rfl, .finish _⟩
    | ok answer =>
      obtain ⟨next, action⟩ := answer
      cases action with
      | exit => exact ⟨rfl, .finish _⟩
      | newEquation => exact ⟨rfl, .ask (.equation next)⟩
      | redraw => exact h.matches_present next (ih next)
      | invalid => exact (h.matches_present next (ih next)).after _

theorem LookAlike.matches_start
    (h : LookAlike draw (Equation.normalize line) (Equation.normalize line')) (view : View α) :
    (start draw line view).Matches (Alike draw) id (start draw line' view) :=
  h.matches_present view ⟨rfl, .ask (.command h view)⟩

theorem simulates_alike (draw : Text → View α → Except ε Text) :
    (dialogue draw).Simulates (dialogue draw) (Alike draw) id where
  prompt h := by cases h <;> rfl
  reply h line := by
    cases h with
    | command h view => exact h.matches_obey view (codes line)
    | equation view => exact LookAlike.matches_start (fun _ => rfl) view
  close h := by cases h <;> rfl

/-- Lines that look alike once they are normalized begin the same session. -/
theorem LookAlike.run_eq (h : LookAlike draw (Equation.normalize line) (Equation.normalize line'))
    (view : View α) (lines : List Text) : run draw line' view lines = run draw line view lines :=
  (simulates_alike draw).run_eq lines (h.matches_start view)

/-- However often a line is normalized before it is used, it makes the same equation: the same
sides, the same source text, the same search, the same picture at every view and the same session
over all lines. -/
theorem agree_normalize_iterate (t : Text) (n : Nat) :
    (Equation.ofLine (Equation.normalize^[n] t)).leftTokens = (Equation.ofLine t).leftTokens ∧
    (Equation.ofLine (Equation.normalize^[n] t)).rightTokens = (Equation.ofLine t).rightTokens ∧
    (Equation.ofLine (Equation.normalize^[n] t)).source Equation.sourceName =
      (Equation.ofLine t).source Equation.sourceName ∧
    (Equation.ofLine (Equation.normalize^[n] t)).isPeriodic = (Equation.ofLine t).isPeriodic ∧
    ((Equation.ofLine (Equation.normalize^[n] t)).searchWindow : Float × Float) =
      (Equation.ofLine t).searchWindow ∧
    (∀ v, Picture.render (Picture.plot (Equation.ofLine (Equation.normalize^[n] t)) v)
        (Equation.ofLine (Equation.normalize^[n] t)).residual =
      Picture.render (Picture.plot (Equation.ofLine t) v) (Equation.ofLine t).residual) ∧
    ∀ view lines, run Picture.text (Equation.normalize^[n] t) view lines =
      run Picture.text t view lines := by
  have htokens : Token.scan (Equation.ofLine (Equation.normalize^[n] t)).text =
      Token.scan (Equation.ofLine t).text := Equation.scan_normalize_iterate t n
  -- a session normalizes its line once more, and its pictures do so again
  have hpictures : LookAlike Picture.text (Equation.normalize t)
      (Equation.normalize (Equation.normalize^[n] t)) := by
    refine Picture.text_congr ?_
    rw [← Function.iterate_succ_apply' Equation.normalize]
    exact (Equation.scan_normalize_iterate t 1).trans
      (Equation.scan_normalize_iterate t (n + 1)).symm
  exact ⟨Equation.leftTokens_congr htokens, Equation.rightTokens_congr htokens,
    Equation.source_congr htokens Equation.sourceName, Equation.isPeriodic_congr htokens,
    Equation.searchWindow_congr htokens, Picture.render_congr htokens, hpictures.run_eq⟩

end ZeroCurve.Session

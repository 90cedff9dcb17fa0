import ZeroCurve.Proofs.Picture.Drawn
import ZeroCurve.Proofs.Session.Restart
import ZeroCurve.Proofs.View.Zoom

/-!
# Sessions on doubles

No session breaks off: each ends with its last view. It writes what the interpreter of its script
writes, and once a new equation is given, nothing is left of what came before.
-/

namespace ZeroCurve.Session

theorem unfailing_text : Unfailing Picture.text := ⟨Picture.text_ok, View.apply_ok⟩

/-- A session ends, with what the interpreter of its script writes and with the view that the
interpreter ends with. -/
theorem run_performs (line : Text) (view : View Float) (lines : List Text) :
    ∃ writes last,
      perform Picture.text (Equation.normalize line) view (script .commands lines) =
        .ok (writes, last) ∧
      (run Picture.text line view lines).writes = writes ∧
      (run Picture.text line view lines).result = .ok last := by
  obtain ⟨⟨writes, last⟩, hperform⟩ := unfailing_text.perform_ok
    (script .commands lines) (Equation.normalize line) view
  have houtcome : outcome (run Picture.text line view lines) = .ok (writes, last) :=
    ((follows lines).commands (Equation.normalize line) view).trans hperform
  refine ⟨writes, last, hperform, ?_⟩
  generalize run Picture.text line view lines = t at houtcome ⊢
  obtain ⟨events, result⟩ := t
  cases result with
  | error fault => cases houtcome
  | ok v =>
    cases houtcome
    exact ⟨rfl, rfl⟩

/-- Where a session has been asked for a new equation, the rest of it is the session that begins
with that equation at the default view: all that is seen and the result, whatever came before. -/
theorem run_restarts (line : Text) (view : View Float) (past : List Text)
    (h : (script .commands past).getLast? = some (.code '7')) :
    ∃ before,
      run Picture.text line view past =
        ⟨before ++ [.read "Enter new equation: ".toList, .act (.print [])], .ok View.default⟩ ∧
      ∀ equation rest,
        run Picture.text line view (past ++ equation :: rest) =
          ⟨before ++ .read "Enter new equation: ".toList ::
              (run Picture.text equation View.default rest).events,
            (run Picture.text equation View.default rest).result⟩ := by
  have hnext : ((dialogue Picture.text).play past (start Picture.text line view)).2 =
      .ask (.equation View.default) :=
    (unfailing_text.play_present _ _ _ _).trans
      ((unfailing_text.leads past).commands _ _ h)
  refine ⟨((dialogue Picture.text).play past (start Picture.text line view)).1, ?_, ?_⟩
  · have hrun := (dialogue Picture.text).run_append past [] (start Picture.text line view)
    rw [hnext, List.append_nil] at hrun
    exact hrun
  · intro equation rest
    have hrun := (dialogue Picture.text).run_append past (equation :: rest)
      (start Picture.text line view)
    rw [hnext] at hrun
    exact hrun

/-- The code behind the demand for a new equation is not obeyed, nor is the zoom before it kept. -/
theorem run_restarts_rest_of_line :
    (script .commands ["1 7 5".toList]).getLast? = some (.code '7') ∧
    ∃ before,
      run Picture.text "y=x".toList View.default ["1 7 5".toList, "y=x^2".toList, "8".toList] =
        ⟨before ++ .read "Enter new equation: ".toList ::
            (run Picture.text "y=x^2".toList View.default ["8".toList]).events,
          (run Picture.text "y=x^2".toList View.default ["8".toList]).result⟩ := by
  have hscript : (script .commands ["1 7 5".toList]).getLast? = some (.code '7') := by decide
  obtain ⟨before, -, hrun⟩ := run_restarts "y=x".toList View.default ["1 7 5".toList] hscript
  exact ⟨hscript, before, hrun "y=x^2".toList ["8".toList]⟩

end ZeroCurve.Session

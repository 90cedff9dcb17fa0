import ZeroCurve.Picture
import ZeroCurve.Proofs.Equation.Tokens

/-!
# Lines with the same tokens

Lines with the same tokens have the same picture at every view, as they have everything else in common
that is made of an equation (`agree_of_scan_eq`).
-/

namespace ZeroCurve

namespace Picture

theorem newton_congr {e e' : Equation} (h : Token.scan e.text = Token.scan e'.text) :
    newton e = newton e' := by
  rw [newton, newton, Equation.isPeriodic_congr h]

theorem render_congr {e e' : Equation} (h : Token.scan e.text = Token.scan e'.text) (v : View Float) :
    render (plot e v) e.residual = render (plot e' v) e'.residual := by
  -- a picture is made of these three, and the size of its grid depends on none of them
  have hparts : ∀ {n n' : Newton Float} {w w' : Float × Float} {r r' : Formula Float},
      n = n' → w = w' → r = r' →
      render ⟨projection v, n, w, 40, 10⟩ r = render ⟨projection v, n', w', 40, 10⟩ r' := by
    rintro n _ w _ r _ rfl rfl rfl
    rfl
  exact hparts (newton_congr h) (Equation.searchWindow_congr h) (Equation.residual_congr h)

theorem text_congr {t u : Text}
    (h : Token.scan (Equation.ofLine t).text = Token.scan (Equation.ofLine u).text) (v : View Float) :
    text t v = text u v := by
  have hrender := render_congr h v
  unfold text
  show (Except.mapError _ (render _ _) >>= _) = (Except.mapError _ (render _ _) >>= _)
  rw [hrender]
  rfl

end Picture

namespace Equation

/-- Two lines with the same tokens make the same equation, whatever stands between their tokens: the
same sides, the same source text, the same search and the same picture at every view. -/
theorem agree_of_scan_eq {t u : Text} (ht : t.length ≤ maxLength) (hu : u.length ≤ maxLength)
    (htline : '\n' ∉ t) (huline : '\n' ∉ u) (h : Token.scan t = Token.scan u) :
    (ofLine t).leftTokens = (ofLine u).leftTokens ∧
    (ofLine t).rightTokens = (ofLine u).rightTokens ∧
    (ofLine t).source sourceName = (ofLine u).source sourceName ∧
    (ofLine t).isPeriodic = (ofLine u).isPeriodic ∧
    ((ofLine t).searchWindow : Float × Float) = (ofLine u).searchWindow ∧
    ∀ v : View Float,
      Picture.render (Picture.plot (ofLine t) v) (ofLine t).residual =
        Picture.render (Picture.plot (ofLine u) v) (ofLine u).residual := by
  have htokens : Token.scan (ofLine t).text = Token.scan (ofLine u).text := by
    show Token.scan (normalize t) = Token.scan (normalize u)
    rw [scan_normalize ht htline, scan_normalize hu huline, h]
  exact ⟨leftTokens_congr htokens, rightTokens_congr htokens, source_congr htokens sourceName,
    isPeriodic_congr htokens, searchWindow_congr htokens, Picture.render_congr htokens⟩

/-- A line with blanks, foreign characters and a line end, and the same without them. -/
theorem agree_of_scan_eq_spaced :
    Token.scan "y = $ 2 * asinh ( x )\r".toList = Token.scan "y=2*asinh(x)".toList ∧
    (ofLine "y = $ 2 * asinh ( x )\r".toList).text ≠ (ofLine "y=2*asinh(x)".toList).text ∧
    (ofLine "y = $ 2 * asinh ( x )\r".toList).isPeriodic = true ∧
    (ofLine "y = $ 2 * asinh ( x )\r".toList).rightTokens =
      (ofLine "y=2*asinh(x)".toList).rightTokens := by
  have h : Token.scan "y = $ 2 * asinh ( x )\r".toList = Token.scan "y=2*asinh(x)".toList := by
    decide +kernel
  have hagree := agree_of_scan_eq (by decide) (by decide) (by decide) (by decide) h
  refine ⟨h, by decide, ?_, hagree.2.1⟩
  rw [hagree.2.2.2.1]
  decide

end Equation

end ZeroCurve

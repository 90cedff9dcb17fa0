import ZeroCurve.Proofs.View.Zoom

/-!
# Views under many codes

What a view comes to when codes are applied to it one after the other. On doubles none of them is
ever refused: a zoom above zero stays above zero, however often it is made smaller.
-/

namespace ZeroCurve.View

/-- The view after codes, each applied to the view that the one before it has led to. -/
def applyAll {α : Type} [Scalar α] (v : View α) : List Text → Except (ViewFault α) (View α)
  | [] => .ok v
  | code :: codes => do (← v.apply code).1.applyAll codes

theorem applyAll_cons {α : Type} [Scalar α] {v next : View α} {action : Action} {code : Text}
    (h : v.apply code = .ok (next, action)) (codes : List Text) :
    v.applyAll (code :: codes) = next.applyAll codes := by
  rw [applyAll, h]
  rfl

theorem applyAll_append {α : Type} [Scalar α] {v last : View α} {codes : List Text}
    (h : v.applyAll codes = .ok last) (codes' : List Text) :
    v.applyAll (codes ++ codes') = last.applyAll codes' := by
  induction codes generalizing v with
  | nil =>
    cases h
    rfl
  | cons code codes ih =>
    cases hnext : v.apply code with
    | error fault =>
      rw [applyAll, hnext] at h
      cases h
    | ok result =>
      rw [applyAll_cons hnext] at h
      rw [List.cons_append, applyAll_cons hnext, ih h]

theorem applyAll_ok (v : View Float) (codes : List Text) : ∃ last, v.applyAll codes = .ok last := by
  induction codes generalizing v with
  | nil => exact ⟨v, rfl⟩
  | cons code codes ih =>
    obtain ⟨⟨next, action⟩, hnext⟩ := v.apply_ok code
    rw [applyAll_cons hnext]
    exact ih next

theorem apply_zoomOut (v : View Float) :
    v.apply ['2'] =
      .ok (⟨v.zoom / zoomStep, v.xOffset, v.yOffset, zero_lt_div_zoomStep v.zoom_pos⟩, .redraw) :=
  apply_change rfl (make_eq (zero_lt_div_zoomStep v.zoom_pos) v.xOffset v.yOffset)

/-- Zooming out again and again divides the zoom again and again. -/
theorem applyAll_replicate_zoomOut (v : View Float) (n : Nat) :
    ∃ last, v.applyAll (List.replicate n ['2']) = .ok last ∧
      last.zoom = (· / zoomStep)^[n] v.zoom := by
  induction n generalizing v with
  | zero => exact ⟨v, rfl, rfl⟩
  | succ n ih =>
    rw [List.replicate_succ, applyAll_cons v.apply_zoomOut]
    exact ih _

theorem isNaN_zoom (v : View Float) : v.zoom.isNaN = false := by
  show v.zoom.toModel.unpack.isNaN = false
  rcases (Double.zero_lt_iff.1 v.zoom_pos).cases with h | ⟨m, e, hm, -, h⟩
  · rw [h]
    rfl
  · rw [h]
    rfl

/-- From a zoom above zero and any offsets, no sequence of codes is refused, and the zoom that it
leads to is above zero and defined. In particular the quotients of a zoom never come down to zero. -/
theorem exists_applyAll {zoom : Float} (h : Scalar.ofInt 0 < zoom) (xOffset yOffset : Float)
    (codes : List Text) :
    ∃ first last, make zoom xOffset yOffset = .ok first ∧ first.applyAll codes = .ok last ∧
      Scalar.ofInt 0 < last.zoom ∧ last.zoom.isNaN = false ∧
      ∀ n, ∃ out, first.applyAll (List.replicate n ['2']) = .ok out ∧
        out.zoom = (· / zoomStep)^[n] zoom ∧
        Scalar.ofInt 0 < (· / zoomStep)^[n] zoom := by
  have hfirst := make_eq h xOffset yOffset
  obtain ⟨last, hlast⟩ := applyAll_ok ⟨zoom, xOffset, yOffset, h⟩ codes
  refine ⟨_, last, hfirst, hlast, last.zoom_pos, last.isNaN_zoom, fun n => ?_⟩
  obtain ⟨out, hout, hzoom⟩ := applyAll_replicate_zoomOut ⟨zoom, xOffset, yOffset, h⟩ n
  exact ⟨out, hout, hzoom, hzoom ▸ out.zoom_pos⟩

/-- The least double above zero is its own quotient; zooming in from it goes up again. -/
theorem exists_applyAll_least :
    Scalar.ofInt 0 < (5e-324 : Float) ∧
    ∃ first last, make 5e-324 0 0 = .ok first ∧
      first.applyAll ["2".toList, "2".toList, "1".toList, "6".toList] = .ok last ∧
      Scalar.ofInt 0 < last.zoom ∧ last.zoom.isNaN = false ∧
      (5e-324 / zoomStep : Float) = 5e-324 := by
  have hleast : Scalar.ofInt 0 < (5e-324 : Float) := by decide +kernel
  obtain ⟨first, last, hfirst, hlast, hpos, hnan, -⟩ := exists_applyAll hleast 0 0
    ["2".toList, "2".toList, "1".toList, "6".toList]
  exact ⟨hleast, first, last, hfirst, hlast, hpos, hnan, by decide +kernel⟩

end ZeroCurve.View

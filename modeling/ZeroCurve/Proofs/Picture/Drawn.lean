import ZeroCurve.Picture
import ZeroCurve.Proofs.Frame.Rows
import ZeroCurve.Proofs.Newton.Defined
import ZeroCurve.Proofs.Plot.ClosedForm

/-!
# Every equation has a picture

At every view the plot of an equation divides by no zero, and its picture can be printed.
-/

namespace ZeroCurve

theorem Projection.columnX_ok {α : Type} [Scalar α] {p : Projection α} {count : Int}
    (hcount : Scalar.isZero (Scalar.ofInt count : α) = false)
    (hscale : Scalar.isZero (p.scale * p.zoom) = false) (column sub : Int) :
    ∃ x, p.columnX column sub count = .ok x := by
  unfold columnX Scalar.divide
  rw [hcount, hscale]
  exact ⟨_, rfl⟩

theorem Plot.sampleRow_ok {α : Type} [Scalar α] {p : Plot α} {f : α → α → α} {start x : α}
    {found : Option α} {column sample : Nat}
    (hx : p.projection.columnX column sample p.samples = .ok x)
    (hfound : p.newton.solve (f x) start = .ok found) :
    (p.sampleRow f start column sample).toBool = true := by
  rw [sampleRow, hx]
  show (p.newton.solve (f x) start >>= _ : Except ArithmeticFault (Option Int)).toBool = true
  rw [hfound]
  cases found <;> rfl

namespace Picture

open Double

theorem isZero_scale_mul_zoom (v : View Float) : Scalar.isZero (scale * v.zoom) = false := by
  refine isZero_of_isAboveZero ?_
  have hscale : scale.toModel.unpack = .finite .positive (5 * 2 ^ 50) (-50) (by decide) := by rfl
  show IsAboveZero (Float.Model.pack (Float.Model.UnpackedFloat.mul _ _ _)).unpack
  rw [hscale, unpacked_mul_comm]
  refine isAboveZero_mul (zero_lt_iff.1 v.zoom_pos) (by decide) ?_
  norm_num

/-- The plot of an equation divides by no zero. -/
theorem isDefined_plot (e : Equation) (v : View Float) (f : Float → Float → Float) :
    (plot e v).IsDefined f := by
  intro number _ column _ sample _
  have hcount : Scalar.isZero (Scalar.ofInt 10 : Float) = false := by decide +kernel
  obtain ⟨x, hx⟩ := Projection.columnX_ok (p := projection v) hcount (isZero_scale_mul_zoom v)
    column sample
  obtain ⟨found, hfound⟩ := (Newton.isSafe_standard _).solve_ok (f x) ((plot e v).guess number)
  exact Plot.sampleRow_ok hx hfound

/-- Every line has a picture at every view. -/
theorem text_ok (line : Text) (v : View Float) : ∃ t, text line v = .ok t := by
  obtain ⟨g, hg, hascii⟩ := Plot.render_ok (isDefined_plot (Equation.ofLine line) v
    fun x y => (Equation.ofLine line).residual.eval x y)
  obtain ⟨t, ht⟩ := Frame.text_ok hascii v
  refine ⟨t, ?_⟩
  rw [text, render, hg]
  show (Frame.text g v).mapError PictureFault.encoding = .ok t
  rw [ht]
  rfl

end Picture

end ZeroCurve

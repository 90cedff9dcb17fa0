import ZeroCurve.Picture
import ZeroCurve.Proofs.Scalar.Range
import ZeroCurve.Proofs.View.Course

/-!
# Views in the range of doubles

Nothing bounds the zoom and the offsets of a view, so a view can be moved out of the range of
doubles: a large zoom by one more step, and an offset where the step of a move, one over the zoom,
is too large. Nothing else does it.
-/

namespace ZeroCurve

/-- Whether the numbers that an axis is placed with are finite. -/
structure Projection.IsFinite (p : Projection Float) : Prop where
  scale : p.scale.isFinite = true
  zoom : p.zoom.isFinite = true
  xOffset : p.xOffset.isFinite = true
  yOffset : p.yOffset.isFinite = true

namespace View

open Double

/-- Whether zoom and offsets are finite. -/
structure IsFinite (v : View Float) : Prop where
  zoom : v.zoom.isFinite = true
  xOffset : v.xOffset.isFinite = true
  yOffset : v.yOffset.isFinite = true

/-- Whether a change of a finite view stays in the range of doubles. A move goes as far as
`panStep`, the double nearest to one over the zoom. -/
def Fits (v : View Float) : Move → Prop
  | .zoomIn => value v.zoom * (3 / 2) < overflowBound
  | .zoomOut => True
  | .left => 1 / value v.zoom < overflowBound ∧
      |value v.xOffset - value v.panStep| < overflowBound
  | .right => 1 / value v.zoom < overflowBound ∧
      |value v.xOffset + value v.panStep| < overflowBound
  | .up => 1 / value v.zoom < overflowBound ∧
      |value v.yOffset + value v.panStep| < overflowBound
  | .down => 1 / value v.zoom < overflowBound ∧
      |value v.yOffset - value v.panStep| < overflowBound

/-- Whether what a code does to a finite view stays in the range of doubles. -/
def FitsCode (v : View Float) (code : Text) : Prop :=
  ∀ m, Command.ofCode? code = some (.change m) → v.Fits m

/-- Whether each of these codes does so at the view that it is applied to. -/
def FitsAll : View Float → List Text → Prop
  | _, [] => True
  | v, code :: codes => v.FitsCode code ∧
      ∀ next action, v.apply code = .ok (next, action) → next.FitsAll codes

theorem value_zoomStep : value zoomStep = 3 / 2 := by
  have hstep : (zoomStep : Float).toModel.unpack =
      .finite .positive (3 * 2 ^ 51) (-52) (by decide) := by rfl
  rw [value_eq, hstep]
  show ((3 * 2 ^ 51 : Nat) : ℚ) * 2 ^ (-52 : Int) = 3 / 2
  norm_num

theorem value_one : value (Scalar.ofInt 1) = 1 := by
  have hone : (Scalar.ofInt 1 : Float).toModel.unpack =
      .finite .positive (2 ^ 52) (-52) (Nat.two_pow_pos 52) := by rfl
  rw [value_eq, hone]
  show ((2 ^ 52 : Nat) : ℚ) * 2 ^ (-52 : Int) = 1
  norm_num

variable {v : View Float}

namespace IsFinite

variable (hv : v.IsFinite)
include hv

theorem value_zoom_pos : 0 < value v.zoom := by
  have hfit := isFit_unpack hv.zoom
  rw [value_eq]
  rcases (zero_lt_iff.1 v.zoom_pos).cases with h | ⟨m, e, hm, -, h⟩
  · rw [h] at hfit
    exact hfit.elim
  · rw [h]
    show 0 < ((m : Int) : ℚ) * 2 ^ e
    positivity

theorem isFinite_zoom_mul_iff :
    (v.zoom * zoomStep).isFinite = true ↔ value v.zoom * (3 / 2) < overflowBound := by
  have hpos := hv.value_zoom_pos
  rw [isFinite_mul_iff hv.zoom (by rfl), value_zoomStep, abs_of_pos (by positivity)]

/-- Zooming out makes the zoom smaller. -/
theorem isFinite_zoom_div : (v.zoom / zoomStep).isFinite = true := by
  have hpos := hv.value_zoom_pos
  have hlt := abs_value_lt hv.zoom
  rw [abs_of_pos hpos] at hlt
  rw [isFinite_div_iff hv.zoom (by rfl) (by rw [value_zoomStep]; norm_num), value_zoomStep,
    abs_of_pos (by positivity)]
  linarith

theorem isFinite_panStep_iff :
    v.panStep.isFinite = true ↔ 1 / value v.zoom < overflowBound := by
  have hpos := hv.value_zoom_pos
  rw [panStep, isFinite_div_iff (by rfl) hv.zoom hpos.ne', value_one, abs_of_pos (by positivity)]

/-- A change leads out of the range of doubles exactly where it does not fit. -/
theorem isFinite_move_iff {m : Move} {next : View Float} (h : v.move m = .ok next) :
    next.IsFinite ↔ v.Fits m := by
  cases m with
  | zoomIn =>
    cases (make_eq (zero_lt_mul_zoomStep v.zoom_pos) v.xOffset v.yOffset).symm.trans h
    rw [Fits, ← hv.isFinite_zoom_mul_iff]
    exact ⟨IsFinite.zoom, fun hzoom => ⟨hzoom, hv.xOffset, hv.yOffset⟩⟩
  | zoomOut =>
    cases (make_eq (zero_lt_div_zoomStep v.zoom_pos) v.xOffset v.yOffset).symm.trans h
    exact iff_of_true ⟨hv.isFinite_zoom_div, hv.xOffset, hv.yOffset⟩ trivial
  | left =>
    cases (make_eq v.zoom_pos (v.xOffset - v.panStep) v.yOffset).symm.trans h
    rw [Fits, ← hv.isFinite_panStep_iff, ← isFinite_sub_iff hv.xOffset]
    exact ⟨IsFinite.xOffset, fun hx => ⟨hv.zoom, hx, hv.yOffset⟩⟩
  | right =>
    cases (make_eq v.zoom_pos (v.xOffset + v.panStep) v.yOffset).symm.trans h
    rw [Fits, ← hv.isFinite_panStep_iff, ← isFinite_add_iff hv.xOffset]
    exact ⟨IsFinite.xOffset, fun hx => ⟨hv.zoom, hx, hv.yOffset⟩⟩
  | up =>
    cases (make_eq v.zoom_pos v.xOffset (v.yOffset + v.panStep)).symm.trans h
    rw [Fits, ← hv.isFinite_panStep_iff, ← isFinite_add_iff hv.yOffset]
    exact ⟨IsFinite.yOffset, fun hy => ⟨hv.zoom, hv.xOffset, hy⟩⟩
  | down =>
    cases (make_eq v.zoom_pos v.xOffset (v.yOffset - v.panStep)).symm.trans h
    rw [Fits, ← hv.isFinite_panStep_iff, ← isFinite_sub_iff hv.yOffset]
    exact ⟨IsFinite.yOffset, fun hy => ⟨hv.zoom, hv.xOffset, hy⟩⟩

end IsFinite

theorem isFinite_default : (default : View Float).IsFinite := ⟨by rfl, by rfl, by rfl⟩

/-- A code leads out of the range of doubles exactly where it does not fit. -/
theorem IsFinite.isFinite_apply_iff (hv : v.IsFinite) {code : Text} {next : View Float}
    {action : Action} (h : v.apply code = .ok (next, action)) :
    next.IsFinite ↔ v.FitsCode code := by
  unfold apply at h
  unfold FitsCode
  split at h
  next m hcode =>
    obtain ⟨moved, hmove⟩ := v.move_ok m
    rw [hmove] at h
    cases h
    rw [hv.isFinite_move_iff hmove, hcode]
    exact ⟨by rintro hfits m' ⟨⟩; exact hfits, fun hfits => hfits m rfl⟩
  next hcode =>
    cases h
    exact iff_of_true isFinite_default (by rw [hcode]; rintro m ⟨⟩)
  next hcode =>
    cases h
    exact iff_of_true hv (by rw [hcode]; rintro m ⟨⟩)
  next hcode =>
    cases h
    exact iff_of_true hv (by rw [hcode]; rintro m ⟨⟩)

/-- All views on the way are finite exactly where all codes fit. -/
theorem IsFinite.fitsAll_iff (hv : v.IsFinite) (codes : List Text) :
    v.FitsAll codes ↔
      ∀ past, past <+: codes → ∃ last, v.applyAll past = .ok last ∧ last.IsFinite := by
  induction codes generalizing v with
  | nil =>
    refine iff_of_true trivial fun past hpast => ?_
    rw [List.prefix_nil.1 hpast]
    exact ⟨v, rfl, hv⟩
  | cons code codes ih =>
    obtain ⟨⟨next, action⟩, hnext⟩ := v.apply_ok code
    have hstep := hv.isFinite_apply_iff hnext
    constructor
    · rintro ⟨hfits, hrest⟩ past hpast
      rcases List.prefix_cons_iff.1 hpast with rfl | ⟨past, rfl, hrestPast⟩
      · exact ⟨v, rfl, hv⟩
      · rw [applyAll_cons hnext]
        exact (ih (hstep.2 hfits)).1 (hrest next action hnext) past hrestPast
    · intro h
      obtain ⟨first, hfirst, hfinite⟩ :=
        h [code] (List.prefix_cons_iff.2 (.inr ⟨[], rfl, List.nil_prefix⟩))
      rw [applyAll_cons hnext] at hfirst
      cases hfirst
      refine ⟨hstep.1 hfinite, fun next' action' hnext' => ?_⟩
      cases hnext.symm.trans hnext'
      refine (ih hfinite).2 fun past hpast => ?_
      have hmore := h (code :: past) (List.prefix_cons_iff.2 (.inr ⟨past, rfl, hpast⟩))
      rw [applyAll_cons hnext] at hmore
      exact hmore

theorem isFinite_scale : Picture.scale.isFinite = true := by
  decide +kernel

theorem IsFinite.isFinite_projection (hv : v.IsFinite) : (Picture.projection v).IsFinite :=
  ⟨isFinite_scale, hv.zoom, hv.xOffset, hv.yOffset⟩

/-- Every code applies to a finite view, and leads to a finite view exactly where it stays in the
range of doubles. So along a sequence of codes the views, and the numbers with which their axes are
placed, are finite exactly as long as each code does. -/
theorem isFinite_iff_fits (v : View Float) (hv : v.IsFinite) :
    (∀ code, ∃ next action, v.apply code = .ok (next, action) ∧
      (next.IsFinite ↔ v.FitsCode code)) ∧
    ∀ codes, v.FitsAll codes ↔
      ∀ past, past <+: codes → ∃ last, v.applyAll past = .ok last ∧ last.IsFinite ∧
        (Picture.projection last).IsFinite := by
  refine ⟨fun code => ?_, fun codes => ?_⟩
  · obtain ⟨⟨next, action⟩, hnext⟩ := v.apply_ok code
    exact ⟨next, action, hnext, hv.isFinite_apply_iff hnext⟩
  · rw [hv.fitsAll_iff]
    refine forall₂_congr fun past _ => exists_congr fun last => and_congr_right fun _ => ?_
    exact ⟨fun hlast => ⟨hlast, hlast.isFinite_projection⟩, And.left⟩

/-- One and a half times the first zoom is the bound itself, which is as near to the largest double
as to infinity: zooming in leads to infinity. From the zoom just below it does not. -/
theorem isFinite_iff_fits_bound :
    (∃ v : View Float, make 1.1984620899082105e308 0 0 = .ok v ∧ v.IsFinite ∧
      value v.zoom * (3 / 2) = overflowBound ∧
      ∃ next action, v.apply "1".toList = .ok (next, action) ∧ ¬next.IsFinite) ∧
    ∃ v : View Float, make 1.1984620899082103e308 0 0 = .ok v ∧ v.IsFinite ∧
      value v.zoom * (3 / 2) < overflowBound ∧
      ∃ next action, v.apply "1".toList = .ok (next, action) ∧ next.IsFinite := by
  have hzero : (0 : Float).isFinite = true := by decide +kernel
  have hunit : (0 : ℚ) < 2 ^ (971 : Int) := by positivity
  constructor
  · have hpos : Scalar.ofInt 0 < (1.1984620899082105e308 : Float) := by decide +kernel
    have hfinite : (1.1984620899082105e308 : Float).isFinite = true := by decide +kernel
    have hbound : value 1.1984620899082105e308 * (3 / 2) = overflowBound := by
      have hvalue : value 1.1984620899082105e308 = (6004799503160661 : Nat) * 2 ^ (971 : Int) :=
        value_of_parts (by decide +kernel)
      rw [hvalue, overflowBound_eq]
      generalize (2 : ℚ) ^ (971 : Int) = unit
      push_cast
      ring
    have hview : IsFinite ⟨1.1984620899082105e308, 0, 0, hpos⟩ := ⟨hfinite, hzero, hzero⟩
    obtain ⟨next, action, hnext, hiff⟩ := (isFinite_iff_fits _ hview).1 "1".toList
    refine ⟨_, make_eq hpos 0 0, hview, hbound, next, action, hnext, fun h => ?_⟩
    exact (hiff.1 h .zoomIn rfl).ne hbound
  · have hpos : Scalar.ofInt 0 < (1.1984620899082103e308 : Float) := by decide +kernel
    have hfinite : (1.1984620899082103e308 : Float).isFinite = true := by decide +kernel
    have hbound : value 1.1984620899082103e308 * (3 / 2) < overflowBound := by
      have hvalue : value 1.1984620899082103e308 = (6004799503160660 : Nat) * 2 ^ (971 : Int) :=
        value_of_parts (by decide +kernel)
      rw [hvalue, overflowBound_eq]
      generalize (2 : ℚ) ^ (971 : Int) = unit at hunit ⊢
      push_cast
      linarith
    have hview : IsFinite ⟨1.1984620899082103e308, 0, 0, hpos⟩ := ⟨hfinite, hzero, hzero⟩
    obtain ⟨next, action, hnext, hiff⟩ := (isFinite_iff_fits _ hview).1 "1".toList
    refine ⟨_, make_eq hpos 0 0, hview, hbound, next, action, hnext, hiff.2 fun m hm => ?_⟩
    cases hm
    exact hbound

/-- Zooming in from the largest zoom leads to infinity, and so does a move at the least zoom. -/
theorem not_isFinite_at_extremes :
    (∃ v next : View Float, make 1.7976931348623157e308 0 0 = .ok v ∧ v.IsFinite ∧
      v.apply "1".toList = .ok (next, .redraw) ∧ next.zoom.isFinite = false) ∧
    ∃ v next : View Float, make 5e-324 0 0 = .ok v ∧ v.IsFinite ∧
      v.apply "4".toList = .ok (next, .redraw) ∧ next.xOffset.isFinite = false := by
  have hzero : (0 : Float).isFinite = true := by decide +kernel
  constructor
  · have hpos : Scalar.ofInt 0 < (1.7976931348623157e308 : Float) := by decide +kernel
    have hfinite : (1.7976931348623157e308 : Float).isFinite = true := by decide +kernel
    have hlost : (1.7976931348623157e308 * zoomStep : Float).isFinite = false := by decide +kernel
    have hmove := make_eq (zero_lt_mul_zoomStep hpos) 0 0
    exact ⟨⟨_, 0, 0, hpos⟩, _, make_eq hpos 0 0, ⟨hfinite, hzero, hzero⟩,
      apply_change rfl hmove, hlost⟩
  · have hpos : Scalar.ofInt 0 < (5e-324 : Float) := by decide +kernel
    have hfinite : (5e-324 : Float).isFinite = true := by decide +kernel
    have hlost : (0 + Scalar.ofInt 1 / 5e-324 : Float).isFinite = false := by decide +kernel
    have hmove := make_eq hpos (0 + panStep ⟨5e-324, 0, 0, hpos⟩) 0
    exact ⟨⟨_, 0, 0, hpos⟩, _, make_eq hpos 0 0, ⟨hfinite, hzero, hzero⟩,
      apply_change rfl hmove, hlost⟩

end View

end ZeroCurve

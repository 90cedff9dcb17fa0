import ZeroCurve.Trace

/-!
# Touches

A stroke comes down to touches of single cells, and a touch either covers its cell or fills it if it
is blank. Neither undoes the other, so what a cell holds after a list of touches depends only on
which touches are in the list, not on their order.
-/

namespace ZeroCurve

/-- One touch of the pen. -/
inductive Touch where
  | cover (cell : Cell)
  | fill (cell : Cell)
deriving DecidableEq, Repr

namespace Touch

variable {width height : Nat}

/-- The canvas after a touch. -/
def draw (g : Canvas width height) : Touch → Canvas width height
  | .cover cell => g.mark cell
  | .fill cell => g.fill cell

/-- Whether a list of touches puts a point of a curve into a cell that holds `held`. -/
def Paints (touches : List Touch) (held : UInt8) (cell : Cell) : Prop :=
  .cover cell ∈ touches ∨ held = Canvas.blank ∧ .fill cell ∈ touches

instance (touches : List Touch) (held : UInt8) (cell : Cell) :
    Decidable (Paints touches held cell) :=
  inferInstanceAs (Decidable (_ ∨ _))

theorem not_paints_nil (held : UInt8) (cell : Cell) : ¬ Paints [] held cell := by
  rintro (h | ⟨-, h⟩) <;> cases h

theorem paints_cons {t : Touch} {touches : List Touch} {held : UInt8} {cell : Cell} :
    Paints (t :: touches) held cell ↔
      t = .cover cell ∨ (held = Canvas.blank ∧ t = .fill cell) ∨ Paints touches held cell := by
  simp only [Paints, List.mem_cons, eq_comm (a := t)]
  constructor
  · rintro ((h | h) | ⟨hb, h | h⟩)
    · exact .inl h
    · exact .inr (.inr (.inl h))
    · exact .inr (.inl ⟨hb, h⟩)
    · exact .inr (.inr (.inr ⟨hb, h⟩))
  · rintro (h | ⟨hb, h⟩ | h | ⟨hb, h⟩)
    · exact .inl (.inl h)
    · exact .inr ⟨hb, .inl h⟩
    · exact .inl (.inr h)
    · exact .inr ⟨hb, .inr h⟩

/-- One touch on one cell. -/
theorem get_draw (g : Canvas width height) (t : Touch) (r : Fin height) (c : Fin width) :
    (t.draw g).get r c =
      if t = .cover ⟨r, c⟩ ∨ (g.get r c = Canvas.blank ∧ t = .fill ⟨r, c⟩) then Canvas.curve
      else g.get r c := by
  cases t with
  | cover cell =>
    rw [draw, Canvas.get_mark]
    simp
  | fill cell =>
    rw [draw, Canvas.get_fill]
    simp [and_comm]

/-- A list of touches on one cell. -/
theorem get_foldl_draw (touches : List Touch) (g : Canvas width height) (r : Fin height)
    (c : Fin width) :
    (touches.foldl draw g).get r c =
      if Paints touches (g.get r c) ⟨r, c⟩ then Canvas.curve else g.get r c := by
  induction touches generalizing g with
  | nil => rw [if_neg (not_paints_nil _ _), List.foldl_nil]
  | cons t touches ih =>
    rw [List.foldl_cons, ih, get_draw]
    -- once the cell is a curve the rest of the list makes no difference to it
    by_cases ht : t = .cover ⟨r, c⟩ ∨ (g.get r c = Canvas.blank ∧ t = .fill ⟨r, c⟩)
    · have hpaints : Paints (t :: touches) (g.get r c) ⟨r, c⟩ := by
        rw [paints_cons, ← or_assoc]
        exact .inl ht
      rw [if_pos ht, if_pos hpaints, ite_self]
    · have hpaints : Paints (t :: touches) (g.get r c) ⟨r, c⟩ ↔
          Paints touches (g.get r c) ⟨r, c⟩ := by
        rw [paints_cons, ← or_assoc, or_iff_right ht]
      rw [if_neg ht]
      simp only [hpaints]

end Touch

/-- The touches of a stroke. -/
def Stroke.touches : Stroke → List Touch
  | .point cell => [.cover cell]
  | .line segment => segment.path.map .fill

theorem Stroke.draw_eq {width height : Nat} (g : Canvas width height) (s : Stroke) :
    s.draw g = s.touches.foldl Touch.draw g := by
  cases s with
  | point cell => rfl
  | line segment =>
    show segment.path.foldl Canvas.fill g = _
    rw [Stroke.touches, List.foldl_map]
    rfl

namespace Trace

/-- The touches of a trace. -/
def touches (t : Trace) : List Touch := t.strokes.flatMap Stroke.touches

variable {width height : Nat}

theorem draw_eq (g : Canvas width height) (t : Trace) :
    t.draw g = t.touches.foldl Touch.draw g := by
  simp only [draw, touches, List.foldl_flatMap, ← Stroke.draw_eq]

theorem foldl_draw_eq (g : Canvas width height) (ts : List Trace) :
    ts.foldl draw g = (ts.flatMap touches).foldl Touch.draw g := by
  simp only [List.foldl_flatMap, ← draw_eq]

/-- Several traces paint what one of them does. -/
theorem paints_flatMap_touches {ts : List Trace} {held : UInt8} {cell : Cell} :
    Touch.Paints (ts.flatMap touches) held cell ↔ ∃ t ∈ ts, Touch.Paints t.touches held cell := by
  simp only [Touch.Paints, List.mem_flatMap]
  constructor
  · rintro (⟨t, ht, hcover⟩ | ⟨hblank, t, ht, hfill⟩)
    · exact ⟨t, ht, .inl hcover⟩
    · exact ⟨t, ht, .inr ⟨hblank, hfill⟩⟩
  · rintro ⟨t, ht, hcover | ⟨hblank, hfill⟩⟩
    · exact .inl ⟨t, ht, hcover⟩
    · exact .inr ⟨hblank, t, ht, hfill⟩

end Trace

/-- The canvas on which a cell is a point of a curve if it is one on any of the given canvases, and
as before otherwise. -/
def Canvas.overlay {width height : Nat} (g : Canvas width height)
    (layers : List (Canvas width height)) : Canvas width height :=
  .ofFn fun r c => if layers.any fun layer => layer.get r c = curve then curve else g.get r c

namespace Trace

variable {width height : Nat}

/-- The overlay of what traces draw alone has a point wherever one of them paints. -/
theorem get_overlay_draw (g : Canvas width height) (ts : List Trace) (r : Fin height)
    (c : Fin width) :
    (g.overlay (ts.map (draw g))).get r c =
      if Touch.Paints (ts.flatMap touches) (g.get r c) ⟨r, c⟩ then Canvas.curve
      else g.get r c := by
  rw [Canvas.overlay, Canvas.get_ofFn]
  by_cases hcurve : g.get r c = Canvas.curve
  · rw [hcurve, ite_self, ite_self]
  · have halone : ∀ t : Trace, (t.draw g).get r c = Canvas.curve ↔
        Touch.Paints t.touches (g.get r c) ⟨r, c⟩ := by
      intro t
      rw [draw_eq, Touch.get_foldl_draw]
      split <;> simp [*]
    have hlayers : ((ts.map (draw g)).any fun layer => layer.get r c = Canvas.curve) = true ↔
        Touch.Paints (ts.flatMap touches) (g.get r c) ⟨r, c⟩ := by
      rw [paints_flatMap_touches]
      simp only [List.any_map, List.any_eq_true, Function.comp_apply, decide_eq_true_eq, halone]
    simp only [hlayers]

/-- Traces that are drawn one after the other give the overlay of what each would draw alone. -/
theorem foldl_draw_eq_overlay (g : Canvas width height) (ts : List Trace) :
    ts.foldl draw g = g.overlay (ts.map (draw g)) := by
  refine Canvas.ext_get fun r c => ?_
  rw [foldl_draw_eq, Touch.get_foldl_draw, get_overlay_draw]

end Trace

end ZeroCurve

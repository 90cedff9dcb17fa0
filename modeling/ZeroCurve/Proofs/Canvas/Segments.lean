import ZeroCurve.Proofs.Canvas.Touch
import ZeroCurve.Proofs.Segment.Course

/-!
# Segments on a canvas

Segments fill the blank cells that they pass through and touch nothing else
(`get_foldl_drawSegment`). So neither their order nor a repetition makes a difference, and what they
leave in a window does not depend on what lies around it.
-/

namespace ZeroCurve

/-- The cell so many rows down and columns to the right. -/
def Cell.shift (down right : Int) (cell : Cell) : Cell := ⟨cell.row + down, cell.column + right⟩

theorem Cell.shift_injective (down right : Int) : Function.Injective (Cell.shift down right) := by
  rintro ⟨row, column⟩ ⟨row', column'⟩ h
  simpa [Cell.shift] using h

namespace Segment

/-- The segment with both its ends shifted. -/
def shift (down right : Int) (s : Segment) : Segment :=
  ⟨s.start.shift down right, s.finish.shift down right⟩

variable (down right : Int) (s : Segment)

theorem width_shift : (s.shift down right).width = s.width := by
  simp [width, shift, Cell.shift]

theorem height_shift : (s.shift down right).height = s.height := by
  simp [height, shift, Cell.shift]

theorem columnStep_shift : (s.shift down right).columnStep = s.columnStep := by
  simp [columnStep, shift, Cell.shift]

theorem rowStep_shift : (s.shift down right).rowStep = s.rowStep := by
  simp [rowStep, shift, Cell.shift]

theorem moves_shift : (s.shift down right).moves = s.moves := by
  rw [moves, moves, width_shift, height_shift]

theorem cellAfter_shift (n : Nat) :
    (s.shift down right).cellAfter n = (s.cellAfter n).shift down right := by
  simp only [cellAfter, moves_shift, width_shift, height_shift, columnStep_shift, rowStep_shift,
    Cell.shift, Cell.mk.injEq]
  constructor <;> exact Int.add_right_comm _ _ _

/-- A shifted segment passes through the shifted cells. -/
theorem path_shift : (s.shift down right).path = s.path.map (Cell.shift down right) := by
  rw [path_eq, path_eq, moves_shift, List.map_map]
  exact List.map_congr_left fun n _ => s.cellAfter_shift down right n

theorem shift_mem_path_shift {cell : Cell} :
    cell.shift down right ∈ (s.shift down right).path ↔ cell ∈ s.path := by
  rw [path_shift, List.mem_map_of_injective (Cell.shift_injective down right)]

end Segment

namespace Canvas

variable {width height columns rows : Nat}

theorem foldl_fill_eq (cells : List Cell) (g : Canvas width height) :
    cells.foldl fill g = (cells.map Touch.fill).foldl Touch.draw g := by
  rw [List.foldl_map]
  rfl

/-- What a list of segments leaves in a cell. -/
theorem get_foldl_drawSegment (ss : List Segment) (g : Canvas width height) (r : Fin height)
    (c : Fin width) :
    (ss.foldl drawSegment g).get r c =
      if g.get r c = blank ∧ ∃ s ∈ ss, (⟨r, c⟩ : Cell) ∈ s.path then curve else g.get r c := by
  have hcells : ss.foldl drawSegment g = (ss.flatMap Segment.path).foldl fill g :=
    List.foldl_flatMap.symm
  rw [hcells, foldl_fill_eq, Touch.get_foldl_draw]
  simp [Touch.Paints]

theorem get_drawSegment (g : Canvas width height) (s : Segment) (r : Fin height) (c : Fin width) :
    (g.drawSegment s).get r c =
      if g.get r c = blank ∧ (⟨r, c⟩ : Cell) ∈ s.path then curve else g.get r c := by
  have h := get_foldl_drawSegment [s] g r c
  simpa using h

/-- Segments that pass through the same cells leave the same. -/
theorem foldl_drawSegment_congr {ss ss' : List Segment} (g : Canvas width height)
    (h : ∀ cell : Cell, (∃ s ∈ ss, cell ∈ s.path) ↔ ∃ s ∈ ss', cell ∈ s.path) :
    ss.foldl drawSegment g = ss'.foldl drawSegment g := by
  refine ext_get fun r c => ?_
  simp only [get_foldl_drawSegment, h]

/-- A window of a canvas, by the place of its upper left cell. -/
structure Window (width height columns rows : Nat) where
  top : Nat
  left : Nat
  rows_le : top + rows ≤ height
  columns_le : left + columns ≤ width

/-- The part of a canvas that is seen through a window. -/
def crop (g : Canvas width height) (w : Window width height columns rows) : Canvas columns rows :=
  ofFn fun r c =>
    g.get ⟨w.top + r, Nat.lt_of_lt_of_le (Nat.add_lt_add_left r.isLt _) w.rows_le⟩
      ⟨w.left + c, Nat.lt_of_lt_of_le (Nat.add_lt_add_left c.isLt _) w.columns_le⟩

/-- Segments drawn in a window are seen there as if they were drawn on the whole canvas. -/
theorem crop_foldl_drawSegment (g : Canvas width height) (w : Window width height columns rows)
    (ss : List Segment) :
    ((ss.map (Segment.shift w.top w.left)).foldl drawSegment g).crop w =
      ss.foldl drawSegment (g.crop w) := by
  refine ext_get fun r c => ?_
  have hcell : (⟨(w.top + r : Nat), (w.left + c : Nat)⟩ : Cell) =
      (⟨r, c⟩ : Cell).shift w.top w.left := by
    simp [Cell.shift, Int.add_comm]
  simp only [crop, get_ofFn, get_foldl_drawSegment, List.mem_map, exists_exists_and_eq_and, hcell,
    Segment.shift_mem_path_shift]

/-- Drawing a segment turns the blank cells that the pen comes by into points of a curve and changes
no other cell. So a segment may be drawn again, a list of segments may be drawn in any order, and a
window of the canvas may be drawn on as if it were all there is. -/
theorem drawSegment_fills_blanks (g : Canvas width height) :
    (∀ s : Segment, s.Course g s.pen s.path (g.drawSegment s) ∧ ∀ r c,
      ((g.drawSegment s).get r c ≠ g.get r c ↔
        (⟨r, c⟩ : Cell) ∈ s.path ∧ g.get r c = blank) ∧
      ((g.drawSegment s).get r c ≠ g.get r c → (g.drawSegment s).get r c = curve)) ∧
    (∀ s, (g.drawSegment s).drawSegment s = g.drawSegment s) ∧
    (∀ ss ss' : List Segment, ss.Perm ss' → ss.foldl drawSegment g = ss'.foldl drawSegment g) ∧
    ∀ (columns rows : Nat) (w : Window width height columns rows) (ss : List Segment),
      ((ss.map (Segment.shift w.top w.left)).foldl drawSegment g).crop w =
        ss.foldl drawSegment (g.crop w) := by
  refine ⟨fun s => ⟨s.course_iff.2 ⟨rfl, rfl⟩, fun r c => ?_⟩, fun s => ?_, fun ss ss' hperm => ?_,
    fun _ _ w ss => g.crop_foldl_drawSegment w ss⟩
  · rw [get_drawSegment]
    split
    next h =>
      rw [h.1]
      exact ⟨iff_of_true (by decide) ⟨h.2, rfl⟩, fun _ => rfl⟩
    next h =>
      exact ⟨iff_of_false (fun hne => hne rfl) fun hpath => h hpath.symm, fun hne => absurd rfl hne⟩
  · show [s, s].foldl drawSegment g = [s].foldl drawSegment g
    exact foldl_drawSegment_congr g fun cell => by simp
  · exact foldl_drawSegment_congr g fun cell => by simp only [hperm.mem_iff]

/-- Two segments that cross on a canvas with a horizontal axis, both of which leave the canvas. -/
def crossing : List Segment := [⟨⟨-1, -1⟩, ⟨4, 4⟩⟩, ⟨⟨3, -1⟩, ⟨-1, 3⟩⟩]

/-- The canvas on which they cross. -/
def crossed : Canvas 4 3 := empty.drawAxes (some 1) none

/-- The window of its two middle columns and its lower two rows. -/
def crossedWindow : Window 4 3 2 2 := ⟨1, 1, by decide, by decide⟩

/-- The axis is kept, the order makes no difference, and the window shows what is drawn in it. -/
theorem drawSegment_fills_blanks_crossing :
    crossing.Perm crossing.reverse ∧
    crossing.foldl drawSegment crossed = crossing.reverse.foldl drawSegment crossed ∧
    (crossing.foldl drawSegment crossed).get 1 1 = axisDash ∧
    (crossed.drawSegment crossing[0]).get 0 0 ≠ crossed.get 0 0 ∧
    (crossed.drawSegment crossing[0]).get 0 0 = curve ∧
    ((crossing.map (Segment.shift 1 1)).foldl drawSegment crossed).crop crossedWindow =
      crossing.foldl drawSegment (crossed.crop crossedWindow) := by
  obtain ⟨hfills, -, horder, hwindow⟩ := drawSegment_fills_blanks crossed
  have hperm : crossing.Perm crossing.reverse := (List.reverse_perm _).symm
  have hchanged : (crossed.drawSegment crossing[0]).get 0 0 ≠ crossed.get 0 0 :=
    ((hfills _).2 0 0).1.2 ⟨by decide, by decide⟩
  exact ⟨hperm, horder _ _ hperm, by decide, hchanged, ((hfills _).2 0 0).2 hchanged,
    hwindow 2 2 crossedWindow crossing⟩

end Canvas

end ZeroCurve

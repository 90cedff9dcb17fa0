import ZeroCurve.Canvas
import ZeroCurve.Proofs.Segment.Chain

/-!
# The course of a segment

A pen that fills the cell it is on and moves until it meets the end has no bound on its moves. It
meets the end all the same, on every canvas and in every direction, after as many moves as the
longer of the two distances has cells; on the way it follows the exact line, rounded to cells.
-/

namespace ZeroCurve.Segment

variable {width height : Nat} (s : Segment)

/-- What drawing comes to from a canvas and a pen on: the cells the pen is on, one after the other,
and the canvas that it leaves. Only the end stops it. -/
inductive Course : Canvas width height → Pen → List Cell → Canvas width height → Prop where
  | stop {g : Canvas width height} {p : Pen} (h : p.cell = s.finish) :
      Course g p [p.cell] (g.fill p.cell)
  | go {g g' : Canvas width height} {p : Pen} {cells : List Cell} (h : p.cell ≠ s.finish)
      (rest : Course (g.fill p.cell) (s.move p) cells g') : Course g p (p.cell :: cells) g'

theorem course_iff_of_eq {g g' : Canvas width height} {p : Pen} {cells : List Cell}
    (h : p.cell = s.finish) :
    s.Course g p cells g' ↔ cells = [p.cell] ∧ g' = g.fill p.cell := by
  constructor
  · intro hcourse
    cases hcourse with
    | stop _ => exact ⟨rfl, rfl⟩
    | go hne _ => exact absurd h hne
  · rintro ⟨rfl, rfl⟩
    exact .stop h

theorem course_iff_of_ne {g g' : Canvas width height} {p : Pen} {cells : List Cell}
    (h : p.cell ≠ s.finish) :
    s.Course g p cells g' ↔
      ∃ rest, cells = p.cell :: rest ∧ s.Course (g.fill p.cell) (s.move p) rest g' := by
  constructor
  · intro hcourse
    cases hcourse with
    | stop heq => exact absurd heq h
    | go _ rest => exact ⟨_, rfl, rest⟩
  · rintro ⟨rest, rfl, hrest⟩
    exact .go h hrest

/-- The bounded walk is the only course, as long as its bound is the number of moves left. -/
theorem course_penAfter_iff (left n : Nat) (h : n + left = s.moves) {g g' : Canvas width height}
    {cells : List Cell} :
    s.Course g (s.penAfter n) cells g' ↔
      cells = s.walk left (s.penAfter n) ∧ g' = cells.foldl Canvas.fill g := by
  induction left generalizing n g cells with
  | zero =>
    have hmet : (s.penAfter n).cell = s.finish := by
      rw [← s.cellAfter_moves, ← h]
      rfl
    rw [s.course_iff_of_eq hmet, walk]
    refine and_congr_right ?_
    rintro rfl
    rfl
  | succ left ih =>
    have hlt : n < s.moves := by omega
    have hunmet : (s.penAfter n).cell ≠ s.finish := s.cellAfter_ne_finish hlt
    rw [s.course_iff_of_ne hunmet, walk, if_neg hunmet, s.move_penAfter (Nat.zero_lt_of_lt hlt)]
    constructor
    · rintro ⟨rest, rfl, hrest⟩
      obtain ⟨rfl, rfl⟩ := (ih (n + 1) (by omega)).1 hrest
      exact ⟨rfl, rfl⟩
    · rintro ⟨rfl, rfl⟩
      exact ⟨_, rfl, (ih (n + 1) (by omega)).2 ⟨rfl, rfl⟩⟩

/-- Drawing a segment comes to an end, and in one way only. -/
theorem course_iff {g g' : Canvas width height} {cells : List Cell} :
    s.Course g s.pen cells g' ↔ cells = s.path ∧ g' = g.drawSegment s := by
  rw [pen_eq, s.course_penAfter_iff s.moves 0 (Nat.zero_add _), ← pen_eq]
  refine and_congr_right ?_
  rintro rfl
  rfl

theorem share_of_length_eq_zero (moves n : Nat) : share moves 0 n = 0 := by
  rw [share, Nat.mul_zero, Nat.zero_add]
  rcases Nat.eq_zero_or_pos moves with rfl | hmoves
  · rfl
  · exact Nat.div_eq_of_lt (by omega)

/-- The step from one coordinate toward another is the sign of their difference, unless there is
nothing to go. -/
theorem step_mul_share (a b : Int) (moves n : Nat) :
    (if a < b then 1 else -1 : Int) * share moves (b - a).natAbs n =
      (b - a).sign * share moves (b - a).natAbs n := by
  rcases Int.lt_trichotomy a b with hlt | rfl | hgt
  · rw [if_pos hlt, Int.sign_eq_one_of_pos (by omega)]
  · rw [Int.sub_self, Int.natAbs_zero, share_of_length_eq_zero, Int.natCast_zero, Int.mul_zero,
      Int.mul_zero]
  · rw [if_neg (by omega), Int.sign_eq_neg_one_of_neg (by omega)]

theorem getElem?_path {n : Nat} (hn : n ≤ s.moves) : s.path[n]? = some (s.cellAfter n) := by
  rw [path_eq, List.getElem?_map, List.getElem?_range (Nat.lt_succ_of_le hn), Option.map_some]

/-- The rows and columns of a segment, with their steps read off its ends. -/
theorem cellAfter_eq (n : Nat) :
    s.cellAfter n =
      ⟨s.start.row + (s.finish.row - s.start.row).sign * share s.moves s.height n,
        s.start.column + (s.finish.column - s.start.column).sign * share s.moves s.width n⟩ := by
  rw [cellAfter, Cell.mk.injEq]
  exact ⟨congrArg (s.start.row + ·) (step_mul_share s.start.row s.finish.row s.moves n),
    congrArg (s.start.column + ·) (step_mul_share s.start.column s.finish.column s.moves n)⟩

theorem share_longer {moves n : Nat} (hn : n ≤ moves) : share moves moves n = n := by
  rcases Nat.eq_zero_or_pos moves with rfl | hmoves
  · rw [Nat.le_zero.1 hn, share_zero]
  · exact share_self hmoves n

/-- On every canvas the pen meets the end of a segment after as many moves as the longer distance
has cells, and there is no other course. With `n` moves it has come `n` cells along the longer axis
and, along the shorter one, as far as the exact line has, rounded with halves away from the start;
both toward the end. The cells make a chain from end to end that never leaves the box of the ends. -/
theorem course_follows_line (g : Canvas width height) :
    (∀ cells g', s.Course g s.pen cells g' ↔ cells = s.path ∧ g' = g.drawSegment s) ∧
    s.path.length = max s.width s.height + 1 ∧
    (∀ n ≤ max s.width s.height, ∃ cell, s.path[n]? = some cell ∧
      (s.height ≤ s.width →
        cell.column = s.start.column + (s.finish.column - s.start.column).sign * n ∧
        cell.row = s.start.row + (s.finish.row - s.start.row).sign *
          ((2 * n * s.height + s.width) / (2 * s.width) : Nat)) ∧
      (s.width ≤ s.height →
        cell.row = s.start.row + (s.finish.row - s.start.row).sign * n ∧
        cell.column = s.start.column + (s.finish.column - s.start.column).sign *
          ((2 * n * s.width + s.height) / (2 * s.height) : Nat))) ∧
    s.start.Joins s.finish s.path := by
  refine ⟨fun cells g' => s.course_iff, ?_, fun n hn => ?_, s.joins_path⟩
  · rw [path_eq, List.length_map, List.length_range]
    rfl
  · refine ⟨s.cellAfter n, s.getElem?_path hn, fun hflat => ?_, fun hsteep => ?_⟩
    · have hlong : s.moves = s.width := Nat.max_eq_left hflat
      rw [cellAfter_eq, hlong, share_longer (hn.trans_eq hlong)]
      exact ⟨rfl, rfl⟩
    · have hlong : s.moves = s.height := Nat.max_eq_right hsteep
      rw [cellAfter_eq, hlong, share_longer (hn.trans_eq hlong)]
      exact ⟨rfl, rfl⟩

end ZeroCurve.Segment

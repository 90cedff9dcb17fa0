import Mathlib.Data.List.Range
import Mathlib.Tactic.Ring
import ZeroCurve.Segment

/-!
# The walk along a segment

Where the pen is after each of its moves, without the error term: on both axes it has come the same
part of the way, rounded to whole cells. On the longer axis nothing has to be rounded.
-/

namespace ZeroCurve

namespace Segment

/-- What has come of a length when `n` of the moves are made, rounded to the nearest whole number,
halves away from zero. -/
def share (moves length n : Nat) : Nat := (2 * n * length + moves) / (2 * moves)

theorem share_eq_iff {moves length n k : Nat} (hmoves : 0 < moves) :
    share moves length n = k ↔
      2 * (moves * k) ≤ 2 * (length * n) + moves ∧
        2 * (length * n) + moves < 2 * (moves * k) + 2 * moves := by
  have hk : k * (2 * moves) = 2 * (moves * k) := by ring
  have hn : 2 * n * length = 2 * (length * n) := by ring
  rw [share, Nat.div_eq_iff (by omega), hk, hn]
  omega

theorem share_zero (moves length : Nat) : share moves length 0 = 0 := by
  rcases Nat.eq_zero_or_pos moves with rfl | hmoves
  · simp [share]
  · rw [share_eq_iff hmoves]
    omega

theorem share_self {moves : Nat} (hmoves : 0 < moves) (n : Nat) : share moves moves n = n := by
  rw [share_eq_iff hmoves]
  omega

theorem share_moves {moves : Nat} (hmoves : 0 < moves) (length : Nat) :
    share moves length moves = length := by
  rw [share_eq_iff hmoves, Nat.mul_comm length moves]
  omega

theorem share_mono (moves length : Nat) {m n : Nat} (h : m ≤ n) :
    share moves length m ≤ share moves length n := by
  refine Nat.div_le_div_right (Nat.add_le_add_right ?_ moves)
  exact Nat.mul_le_mul_right length (Nat.mul_le_mul_left 2 h)

theorem share_bounds {moves : Nat} (hmoves : 0 < moves) (length n : Nat) :
    2 * (moves * share moves length n) ≤ 2 * (length * n) + moves ∧
      2 * (length * n) + moves < 2 * (moves * share moves length n) + 2 * moves :=
  (share_eq_iff hmoves).1 rfl

/-- The next share is read off the error of the shorter of two lengths. -/
theorem share_succ {moves length : Nat} (hmoves : 0 < moves) (hlength : length ≤ moves) (n : Nat) :
    share moves length (n + 1) =
      if 2 * ((moves : Int) - length - length * n + moves * share moves length n) ≤ moves
      then share moves length n + 1 else share moves length n := by
  obtain ⟨hlow, hhigh⟩ := share_bounds hmoves length n
  generalize share moves length n = k at hlow hhigh ⊢
  split
  next herror =>
    rw [share_eq_iff hmoves, Nat.mul_succ, Nat.mul_succ]
    omega
  next herror =>
    rw [share_eq_iff hmoves, Nat.mul_succ]
    omega

/-- The error of the shorter of two lengths is never too small for a move along the longer one. -/
theorem neg_le_error {moves length : Nat} (hmoves : 0 < moves) (hlength : length ≤ moves) (n : Nat) :
    -(length : Int) ≤
      2 * ((moves : Int) - length - length * n + moves * share moves length n) := by
  obtain ⟨hlow, hhigh⟩ := share_bounds hmoves length n
  generalize share moves length n = k at hlow hhigh ⊢
  omega

variable (s : Segment)

/-- How many moves the pen makes. -/
def moves : Nat := max s.width s.height

/-- The cell of the pen after `n` moves. -/
def cellAfter (n : Nat) : Cell where
  row := s.start.row + s.rowStep * share s.moves s.height n
  column := s.start.column + s.columnStep * share s.moves s.width n

/-- The pen after `n` moves. -/
def penAfter (n : Nat) : Pen where
  cell := s.cellAfter n
  error := (s.width : Int) - s.height - s.height * share s.moves s.width n +
    s.width * share s.moves s.height n

theorem finish_row : s.finish.row = s.start.row + s.rowStep * s.height := by
  unfold rowStep height
  split <;> omega

theorem finish_column : s.finish.column = s.start.column + s.columnStep * s.width := by
  unfold columnStep width
  split <;> omega

theorem rowStep_eq : s.rowStep = 1 ∨ s.rowStep = -1 := by
  unfold rowStep
  split <;> simp

theorem columnStep_eq : s.columnStep = 1 ∨ s.columnStep = -1 := by
  unfold columnStep
  split <;> simp

theorem cellAfter_zero : s.cellAfter 0 = s.start := by
  simp [cellAfter, share_zero]

theorem cellAfter_moves : s.cellAfter s.moves = s.finish := by
  obtain ⟨start, finish⟩ := s
  rcases Nat.eq_zero_or_pos (moves ⟨start, finish⟩) with hmoves | hmoves
  · have hrow := finish_row ⟨start, finish⟩
    have hcolumn := finish_column ⟨start, finish⟩
    have hheight : height ⟨start, finish⟩ = 0 := by unfold moves at hmoves; omega
    have hwidth : width ⟨start, finish⟩ = 0 := by unfold moves at hmoves; omega
    rw [hheight] at hrow
    rw [hwidth] at hcolumn
    rw [hmoves, cellAfter_zero]
    cases start
    cases finish
    simp_all
  · unfold cellAfter
    rw [share_moves hmoves, share_moves hmoves, ← finish_row, ← finish_column]

theorem pen_eq : s.pen = s.penAfter 0 := by
  simp [pen, penAfter, cellAfter_zero, share_zero]

/-- One move takes the pen to its next place, if the segment is not steeper than the diagonal. -/
theorem move_penAfter_of_height_le (hmoves : 0 < s.moves) (h : s.height ≤ s.width) (n : Nat) :
    s.move (s.penAfter n) = s.penAfter (n + 1) := by
  have hlong : s.moves = s.width := Nat.max_eq_left h
  rw [hlong] at hmoves
  have hsideways := neg_le_error hmoves h n
  simp only [move, penAfter, cellAfter, hlong, share_self hmoves, share_succ hmoves h n]
  rw [if_pos hsideways, if_pos hsideways]
  split
  · simp only [Pen.mk.injEq, Cell.mk.injEq]
    refine ⟨⟨?_, ?_⟩, ?_⟩ <;> push_cast <;> ring
  · simp only [Pen.mk.injEq, Cell.mk.injEq]
    refine ⟨⟨?_, ?_⟩, ?_⟩ <;> push_cast <;> ring

/-- One move takes the pen to its next place, if the segment is at least as steep as the diagonal.
Here the error is that of the shorter axis with its sign changed. -/
theorem move_penAfter_of_width_le (hmoves : 0 < s.moves) (h : s.width ≤ s.height) (n : Nat) :
    s.move (s.penAfter n) = s.penAfter (n + 1) := by
  have hlong : s.moves = s.height := Nat.max_eq_right h
  rw [hlong] at hmoves
  have herror : (s.penAfter n).error = -((s.height : Int) - s.width - s.width * n +
      s.height * share s.height s.width n) := by
    simp only [penAfter, hlong, share_self hmoves]
    ring
  have hdownward : 2 * (s.penAfter n).error ≤ s.width := by
    have := neg_le_error hmoves h n
    omega
  have hsideways : -(s.height : Int) ≤ 2 * (s.penAfter n).error ↔
      2 * ((s.height : Int) - s.width - s.width * n + s.height * share s.height s.width n) ≤
        s.height := by
    omega
  unfold move
  simp only [hdownward, hsideways, if_true]
  simp only [penAfter, cellAfter, hlong, share_self hmoves, share_succ hmoves h n]
  split
  · simp only [Pen.mk.injEq, Cell.mk.injEq]
    refine ⟨⟨?_, ?_⟩, ?_⟩ <;> push_cast <;> ring
  · simp only [Pen.mk.injEq, Cell.mk.injEq]
    refine ⟨⟨?_, ?_⟩, ?_⟩ <;> push_cast <;> ring

theorem move_penAfter (hmoves : 0 < s.moves) (n : Nat) :
    s.move (s.penAfter n) = s.penAfter (n + 1) := by
  rcases Nat.le_total s.height s.width with h | h
  · exact s.move_penAfter_of_height_le hmoves h n
  · exact s.move_penAfter_of_width_le hmoves h n

theorem cellAfter_inj (hmoves : 0 < s.moves) {m n : Nat} :
    s.cellAfter m = s.cellAfter n ↔ m = n := by
  constructor
  · intro h
    have hrow := congrArg Cell.row h
    have hcolumn := congrArg Cell.column h
    simp only [cellAfter] at hrow hcolumn
    -- the longer axis tells the moves apart
    rcases Nat.le_total s.height s.width with hle | hle
    · have hlong : s.moves = s.width := Nat.max_eq_left hle
      rw [← hlong, share_self hmoves, share_self hmoves] at hcolumn
      rcases s.columnStep_eq with hstep | hstep <;> rw [hstep] at hcolumn <;> omega
    · have hlong : s.moves = s.height := Nat.max_eq_right hle
      rw [← hlong, share_self hmoves, share_self hmoves] at hrow
      rcases s.rowStep_eq with hstep | hstep <;> rw [hstep] at hrow <;> omega
  · rintro rfl
    rfl

theorem cellAfter_ne_finish {n : Nat} (h : n < s.moves) : s.cellAfter n ≠ s.finish := by
  rw [← s.cellAfter_moves, Ne, s.cellAfter_inj (Nat.zero_lt_of_lt h)]
  exact Nat.ne_of_lt h

/-- The pen stops when it has made its moves, not before. -/
theorem walk_penAfter (left n : Nat) (h : n + left = s.moves) :
    s.walk left (s.penAfter n) = (List.range' n (left + 1)).map s.cellAfter := by
  induction left generalizing n with
  | zero => rfl
  | succ left ih =>
    have hlt : n < s.moves := by omega
    have hunmet : (s.penAfter n).cell ≠ s.finish := s.cellAfter_ne_finish hlt
    rw [walk, if_neg hunmet, s.move_penAfter (Nat.zero_lt_of_lt hlt),
      ih (n + 1) (by omega), List.range'_succ, List.map_cons]
    rfl

/-- The cells of a segment, each by the number of moves that lead to it. -/
theorem path_eq : s.path = (List.range (s.moves + 1)).map s.cellAfter := by
  rw [path, pen_eq, List.range_eq_range']
  exact s.walk_penAfter s.moves 0 (Nat.zero_add _)

theorem mem_path {cell : Cell} : cell ∈ s.path ↔ ∃ n ≤ s.moves, s.cellAfter n = cell := by
  rw [path_eq, List.mem_map]
  exact exists_congr fun n => and_congr_left fun _ => by rw [List.mem_range, Nat.lt_succ_iff]

end Segment

end ZeroCurve

import Mathlib.Data.List.Chain
import ZeroCurve.Proofs.Segment.Walk

/-!
# Segments are chains

The cells of a segment join its two ends without a gap: each touches the next one, none is outside
the box of the ends, and every row between the ends is met.
-/

namespace ZeroCurve

/-- Whether two cells are different and touch at a side or a corner. -/
def Cell.Adjacent (a b : Cell) : Prop :=
  a ≠ b ∧ (b.row - a.row).natAbs ≤ 1 ∧ (b.column - a.column).natAbs ≤ 1

/-- A chain of cells that touch, from one cell to another, that stays in the box of the two and
meets every row of it. -/
structure Cell.Joins (a b : Cell) (chain : List Cell) : Prop where
  head : chain.head? = some a
  last : chain.getLast? = some b
  adjacent : chain.IsChain Cell.Adjacent
  row_mem : ∀ cell ∈ chain, min a.row b.row ≤ cell.row ∧ cell.row ≤ max a.row b.row
  column_mem : ∀ cell ∈ chain, min a.column b.column ≤ cell.column ∧
    cell.column ≤ max a.column b.column
  row_met : ∀ row, min a.row b.row ≤ row → row ≤ max a.row b.row → ∃ cell ∈ chain, cell.row = row

namespace Segment

theorem share_le {moves length n : Nat} (hlength : length ≤ moves) (hn : n ≤ moves) :
    share moves length n ≤ length := by
  rcases Nat.eq_zero_or_pos moves with rfl | hmoves
  · simp [share]
  · exact (share_mono moves length hn).trans_eq (share_moves hmoves length)

theorem share_succ_cases {moves length : Nat} (hmoves : 0 < moves) (hlength : length ≤ moves)
    (n : Nat) :
    share moves length (n + 1) = share moves length n + 1 ∨
      share moves length (n + 1) = share moves length n := by
  rw [share_succ hmoves hlength n]
  split
  · exact .inl rfl
  · exact .inr rfl

/-- Shares leave no whole number out. -/
theorem exists_share_eq {moves length : Nat} (hmoves : 0 < moves) (hlength : length ≤ moves)
    {n k : Nat} (hk : k ≤ share moves length n) : ∃ m ≤ n, share moves length m = k := by
  induction n with
  | zero => exact ⟨0, Nat.le_refl 0, by rw [share_zero] at hk ⊢; omega⟩
  | succ n ih =>
    by_cases hlast : share moves length (n + 1) = k
    · exact ⟨n + 1, Nat.le_refl _, hlast⟩
    · have hearlier : k ≤ share moves length n := by
        rcases share_succ_cases hmoves hlength n with h | h <;> omega
      obtain ⟨m, hm, hshare⟩ := ih hearlier
      exact ⟨m, Nat.le_succ_of_le hm, hshare⟩

variable (s : Segment)

theorem height_le_moves : s.height ≤ s.moves := Nat.le_max_right _ _

theorem width_le_moves : s.width ≤ s.moves := Nat.le_max_left _ _

theorem adjacent_cellAfter {n : Nat} (hn : n < s.moves) :
    (s.cellAfter n).Adjacent (s.cellAfter (n + 1)) := by
  have hmoves := Nat.zero_lt_of_lt hn
  refine ⟨fun h => Nat.succ_ne_self n ((s.cellAfter_inj hmoves).1 h).symm, ?_, ?_⟩
  · have hrow : (s.cellAfter (n + 1)).row - (s.cellAfter n).row =
        s.rowStep * (share s.moves s.height (n + 1) - share s.moves s.height n) := by
      simp only [cellAfter]
      ring
    rw [hrow]
    rcases s.rowStep_eq with hstep | hstep <;>
      rcases share_succ_cases hmoves s.height_le_moves n with h | h <;> rw [hstep, h] <;> omega
  · have hcolumn : (s.cellAfter (n + 1)).column - (s.cellAfter n).column =
        s.columnStep * (share s.moves s.width (n + 1) - share s.moves s.width n) := by
      simp only [cellAfter]
      ring
    rw [hcolumn]
    rcases s.columnStep_eq with hstep | hstep <;>
      rcases share_succ_cases hmoves s.width_le_moves n with h | h <;> rw [hstep, h] <;> omega

theorem isChain_path : s.path.IsChain Cell.Adjacent := by
  rw [path_eq, List.isChain_map, List.isChain_range_succ]
  exact fun n hn => s.adjacent_cellAfter hn

/-- The cells of a segment join its ends. -/
theorem joins_path : s.start.Joins s.finish s.path where
  head := by
    rw [path_eq, List.head?_map, List.head?_range]
    simp [cellAfter_zero]
  last := by
    rw [path_eq, List.getLast?_map, List.getLast?_range]
    simp [cellAfter_moves]
  adjacent := s.isChain_path
  row_mem := by
    intro cell hcell
    obtain ⟨n, hn, rfl⟩ := s.mem_path.1 hcell
    have hshare := share_le s.height_le_moves hn
    rw [finish_row, cellAfter]
    rcases s.rowStep_eq with hstep | hstep <;> rw [hstep] <;> dsimp only <;> omega
  column_mem := by
    intro cell hcell
    obtain ⟨n, hn, rfl⟩ := s.mem_path.1 hcell
    have hshare := share_le s.width_le_moves hn
    rw [finish_column, cellAfter]
    rcases s.columnStep_eq with hstep | hstep <;> rw [hstep] <;> dsimp only <;> omega
  row_met := by
    intro row hlow hhigh
    have hheight : (row - s.start.row).natAbs ≤ s.height := by
      unfold height
      omega
    rcases Nat.eq_zero_or_pos s.moves with hzero | hmoves
    · refine ⟨s.start, s.mem_path.2 ⟨0, Nat.zero_le _, s.cellAfter_zero⟩, ?_⟩
      have := s.height_le_moves
      omega
    · obtain ⟨m, hm, hshare⟩ := exists_share_eq hmoves s.height_le_moves
        (hheight.trans (share_moves hmoves s.height).ge)
      refine ⟨s.cellAfter m, s.mem_path.2 ⟨m, hm, rfl⟩, ?_⟩
      rw [cellAfter, hshare]
      unfold rowStep
      split <;> dsimp only <;> omega

end Segment

end ZeroCurve

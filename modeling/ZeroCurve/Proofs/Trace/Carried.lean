import ZeroCurve.Proofs.Canvas.Touch

/-!
# The carried row

A trace goes on from the last row of the latest column that has any. The row that is carried into a
column is described here without the recursion that carries it, and with it the strokes of a trace.
-/

namespace ZeroCurve.Trace

/-- The rows of a column, none behind the last column. -/
def rowsAt (t : Trace) (column : Nat) : List Int := t[column]?.getD []

/-- Whether the row is the last one of the latest column before `column` that has rows. -/
def IsPrevious (rowsAt : Nat → List Int) (column : Nat) (row : Int) : Prop :=
  ∃ earlier < column, (rowsAt earlier).getLast? = some row ∧
    ∀ between, earlier < between → between < column → rowsAt between = []

theorem not_isPrevious_zero (rowsAt : Nat → List Int) (row : Int) :
    ¬ IsPrevious rowsAt 0 row := by
  rintro ⟨earlier, h, -⟩
  exact absurd h (Nat.not_lt_zero earlier)

theorem isPrevious_succ {rowsAt : Nat → List Int} {column : Nat} {row : Int} :
    IsPrevious rowsAt (column + 1) row ↔
      (rowsAt column).getLast? = some row ∨
        (rowsAt column = [] ∧ IsPrevious rowsAt column row) := by
  constructor
  · rintro ⟨earlier, hlt, hlast, hgap⟩
    rcases Nat.lt_succ_iff_lt_or_eq.1 hlt with h | rfl
    · refine .inr ⟨hgap column h (Nat.lt_succ_self column), earlier, h, hlast, ?_⟩
      exact fun between hb hb' => hgap between hb (Nat.lt_succ_of_lt hb')
    · exact .inl hlast
  · rintro (hlast | ⟨hnil, earlier, hlt, hlast, hgap⟩)
    · refine ⟨column, Nat.lt_succ_self column, hlast, ?_⟩
      intro between hb hb'
      omega
    · refine ⟨earlier, Nat.lt_succ_of_lt hlt, hlast, ?_⟩
      intro between hb hb'
      rcases Nat.lt_succ_iff_lt_or_eq.1 hb' with h | rfl
      · exact hgap between hb h
      · exact hnil

/-- Where a column before has rows, there is a last row. -/
theorem exists_isPrevious {rowsAt : Nat → List Int} {column : Nat}
    (h : ∃ earlier < column, rowsAt earlier ≠ []) : ∃ row, IsPrevious rowsAt column row := by
  obtain ⟨earlier, hlt, hne⟩ := h
  induction column with
  | zero => exact absurd hlt (Nat.not_lt_zero earlier)
  | succ column ih =>
    by_cases hnil : rowsAt column = []
    · have hbefore : earlier < column := by
        rcases Nat.lt_succ_iff_lt_or_eq.1 hlt with h | rfl
        · exact h
        · exact absurd hnil hne
      obtain ⟨row, hrow⟩ := ih hbefore
      exact ⟨row, isPrevious_succ.2 (.inr ⟨hnil, hrow⟩)⟩
    · exact ⟨_, isPrevious_succ.2 (.inl (List.getLast?_eq_some_getLast hnil))⟩

theorem isPrevious_congr {rowsAt rowsAt' : Nat → List Int} {column : Nat} {row : Int}
    (h : ∀ earlier < column, rowsAt earlier = rowsAt' earlier) :
    IsPrevious rowsAt column row ↔ IsPrevious rowsAt' column row := by
  constructor
  · rintro ⟨earlier, hlt, hlast, hgap⟩
    refine ⟨earlier, hlt, h earlier hlt ▸ hlast, fun between hb hb' => ?_⟩
    rw [← h between hb']
    exact hgap between hb hb'
  · rintro ⟨earlier, hlt, hlast, hgap⟩
    refine ⟨earlier, hlt, (h earlier hlt).symm ▸ hlast, fun between hb hb' => ?_⟩
    rw [h between hb']
    exact hgap between hb hb'

/-- The row that is carried into a column. -/
def carried (previous : Option Int) (t : Trace) (column : Nat) : Option Int :=
  (t.take column).foldl (fun previous rows => rows.getLast?.or previous) previous

theorem carried_cons_succ (previous : Option Int) (rows : List Int) (t : Trace) (column : Nat) :
    carried previous (rows :: t) (column + 1) = carried (rows.getLast?.or previous) t column := rfl

/-- One column further, the carried row is the last one of the column, if it has rows. -/
theorem carried_succ (previous : Option Int) (t : Trace) (column : Nat) :
    carried previous t (column + 1) =
      (t.rowsAt column).getLast?.or (carried previous t column) := by
  rw [carried, List.take_add_one, List.foldl_append]
  cases h : t[column]? with
  | none => simp [rowsAt, h, carried]
  | some rows => simp [rowsAt, h, carried]

theorem carried_eq_some_iff {t : Trace} {column : Nat} {row : Int} :
    carried none t column = some row ↔ IsPrevious t.rowsAt column row := by
  induction column with
  | zero => exact iff_of_false (by simp [carried]) (not_isPrevious_zero _ _)
  | succ column ih =>
    rw [carried_succ, isPrevious_succ, Option.or_eq_some_iff, ih, List.getLast?_eq_none_iff]

/-- The strokes behind a row that is already carried: the points of all columns, and the lines to
them from the row carried into their column. -/
theorem mem_strokesFrom {s : Stroke} {first : Int} {previous : Option Int} {t : Trace} :
    s ∈ strokesFrom first previous t ↔
      ∃ (column : Nat) (row : Int), row ∈ t.rowsAt column ∧
        s ∈ pointStrokes (first + column) (carried previous t column) row := by
  induction t generalizing first previous with
  | nil => simp [strokesFrom, rowsAt]
  | cons rows rest ih =>
    have hnext : ∀ column : Nat, first + 1 + (column : Int) = first + ((column + 1 : Nat) : Int) := by
      omega
    rw [strokesFrom, List.mem_append, List.mem_flatMap, ih]
    -- column zero of the whole trace is its first column, all others are one further in the rest
    constructor
    · rintro (⟨row, hrow, hs⟩ | ⟨column, row, hrow, hs⟩)
      · refine ⟨0, row, hrow, ?_⟩
        rw [Int.ofNat_zero, Int.add_zero]
        exact hs
      · refine ⟨column + 1, row, hrow, ?_⟩
        rw [carried_cons_succ, ← hnext]
        exact hs
    · rintro ⟨column, row, hrow, hs⟩
      cases column with
      | zero =>
        rw [Int.ofNat_zero, Int.add_zero] at hs
        exact .inl ⟨row, hrow, hs⟩
      | succ column =>
        rw [carried_cons_succ, ← hnext] at hs
        exact .inr ⟨column, row, hrow, hs⟩

theorem mem_pointStrokes {s : Stroke} {column : Int} {previous : Option Int} {row : Int} :
    s ∈ pointStrokes column previous row ↔
      s = .point ⟨row, column⟩ ∨
        ∃ last, previous = some last ∧ s = .line ⟨⟨last, column - 1⟩, ⟨row, column⟩⟩ := by
  cases previous with
  | none => simp [pointStrokes]
  | some last => simp [pointStrokes]

/-- The strokes of a trace are the points of its columns and the lines to them. -/
theorem mem_strokes {s : Stroke} {t : Trace} :
    s ∈ t.strokes ↔
      ∃ (column : Nat) (row : Int), row ∈ t.rowsAt column ∧
        (s = .point ⟨row, column⟩ ∨
          ∃ last, IsPrevious t.rowsAt column last ∧
            s = .line ⟨⟨last, (column : Int) - 1⟩, ⟨row, column⟩⟩) := by
  simp only [strokes, mem_strokesFrom, mem_pointStrokes, Int.zero_add, carried_eq_some_iff]

/-- A trace covers the cells of its points. -/
theorem cover_mem_touches {t : Trace} {cell : Cell} :
    .cover cell ∈ t.touches ↔ ∃ column : Nat, cell.column = column ∧ cell.row ∈ t.rowsAt column := by
  rw [touches, List.mem_flatMap]
  constructor
  · rintro ⟨s, hs, htouch⟩
    obtain ⟨column, row, hrow, rfl | ⟨last, -, rfl⟩⟩ := mem_strokes.1 hs
    · cases List.mem_singleton.1 htouch
      exact ⟨column, rfl, hrow⟩
    · obtain ⟨_, -, h⟩ := List.mem_map.1 htouch
      cases h
  · rintro ⟨column, hcolumn, hrow⟩
    refine ⟨.point cell, mem_strokes.2 ⟨column, cell.row, hrow, .inl ?_⟩, List.mem_singleton_self _⟩
    rw [← hcolumn]

/-- A trace fills the cells on the lines to its points from the rows carried to them. -/
theorem fill_mem_touches {t : Trace} {cell : Cell} :
    .fill cell ∈ t.touches ↔
      ∃ (column : Nat) (last row : Int), IsPrevious t.rowsAt column last ∧
        row ∈ t.rowsAt column ∧
        cell ∈ Segment.path ⟨⟨last, (column : Int) - 1⟩, ⟨row, column⟩⟩ := by
  rw [touches, List.mem_flatMap]
  constructor
  · rintro ⟨s, hs, htouch⟩
    obtain ⟨column, row, hrow, rfl | ⟨last, hlast, rfl⟩⟩ := mem_strokes.1 hs
    · cases List.mem_singleton.1 htouch
    · obtain ⟨cell', hcell, h⟩ := List.mem_map.1 htouch
      cases h
      exact ⟨column, last, row, hlast, hrow, hcell⟩
  · rintro ⟨column, last, row, hlast, hrow, hcell⟩
    refine ⟨_, mem_strokes.2 ⟨column, row, hrow, .inr ⟨last, hlast, rfl⟩⟩, ?_⟩
    exact List.mem_map.2 ⟨cell, hcell, rfl⟩

end ZeroCurve.Trace

import ZeroCurve.Proofs.Frame.Rows

/-!
# Grids that cannot be printed

A grid is refused for the first code outside ASCII of the first row that has one, and for nothing
else. Every other grid has the text of its frame.
-/

namespace ZeroCurve

namespace Frame

/-- The character of a code in a column, which has to be one of ASCII. -/
def codeText (cell : UInt8 × Nat) : Except EncodingFault Char :=
  if cell.1 < 128 then .ok (Char.ofNat cell.1.toNat) else .error ⟨cell.1, cell.2⟩

theorem exists_codeText_eq_ok_iff {b : UInt8} {column : Nat} :
    (∃ c, codeText (b, column) = .ok c) ↔ b < 128 := by
  by_cases hb : b < 128
  · rw [codeText, if_pos hb]
    exact iff_of_true ⟨_, rfl⟩ hb
  · rw [codeText, if_neg hb]
    refine iff_of_false ?_ hb
    rintro ⟨c, hc⟩
    cases hc

theorem codeText_eq_error_iff {b : UInt8} {column : Nat} {fault : EncodingFault} :
    codeText (b, column) = .error fault ↔ 128 ≤ b ∧ fault = ⟨b, column⟩ := by
  by_cases hb : b < 128
  · rw [codeText, if_pos hb]
    refine iff_of_false ?_ fun h => UInt8.not_le.2 hb h.1
    intro h
    cases h
  · rw [codeText, if_neg hb, Except.error.injEq, eq_comm, and_iff_right (UInt8.not_lt.1 hb)]

theorem rowTextFrom_eq_mapM (column : Nat) (row : List UInt8) :
    rowTextFrom column row = (row.zipIdx column).mapM codeText := by
  induction row generalizing column with
  | nil => rfl
  | cons b row ih =>
    rw [rowTextFrom, List.zipIdx_cons, List.mapM_cons, codeText, ih]
    split <;> rfl

/-- A row is refused for its first code outside ASCII. -/
theorem rowText_eq_error_iff {row : List UInt8} {fault : EncodingFault} :
    rowText row = .error fault ↔
      ∃ i b, row[i]? = some b ∧ 128 ≤ b ∧ (∀ j < i, ∀ a, row[j]? = some a → a < 128) ∧
        fault = ⟨b, i⟩ := by
  rw [rowText, rowTextFrom_eq_mapM, List.mapM_eq_error_iff]
  simp only [List.getElem?_zipIdx, Option.map_eq_some_iff, Nat.zero_add]
  constructor
  · rintro ⟨i, -, ⟨b, hb, rfl⟩, hb', hbefore⟩
    obtain ⟨hforeign, rfl⟩ := codeText_eq_error_iff.1 hb'
    refine ⟨i, b, hb, hforeign, fun j hj a ha => ?_, rfl⟩
    exact exists_codeText_eq_ok_iff.1 (hbefore j hj _ ⟨a, ha, rfl⟩)
  · rintro ⟨i, b, hb, hforeign, hbefore, rfl⟩
    refine ⟨i, _, ⟨b, hb, rfl⟩, codeText_eq_error_iff.2 ⟨hforeign, rfl⟩, ?_⟩
    rintro j hj - ⟨a, ha, rfl⟩
    exact exists_codeText_eq_ok_iff.2 (hbefore j hj a ha)

theorem rowText_ok_iff {row : List UInt8} : (∃ t, rowText row = .ok t) ↔ ∀ b ∈ row, b < 128 := by
  constructor
  · rintro ⟨t, ht⟩ b hb
    rw [rowText, rowTextFrom_eq_mapM] at ht
    obtain ⟨i, hi, rfl⟩ := List.getElem_of_mem hb
    have hcell : (row[i], i) ∈ row.zipIdx :=
      List.mem_iff_getElem?.2 ⟨i, by simp [List.getElem?_zipIdx, List.getElem?_eq_getElem hi]⟩
    obtain ⟨c, hc⟩ := List.ok_of_mapM_ok ht _ hcell
    exact exists_codeText_eq_ok_iff.1 ⟨c, hc⟩
  · exact fun h => ⟨_, rowTextFrom_eq h⟩

variable {width height : Nat} {g : Canvas width height} {v : View Float}

/-- The lines of a frame, if the rows have no line feeds. -/
def framed (width : Nat) (rows : List Text) (v : View Float) : List Text :=
  border width :: rows.map barred ++ [border width, [], caption v]

theorem text_eq (g : Canvas width height) (v : View Float) :
    text g v = (g.rows.toList.mapM fun row => rowText row.toList).map fun rows =>
      Text.joinLines (framed width rows v) := by
  rw [text, parts]
  cases g.rows.toList.mapM fun row => rowText row.toList <;> rfl

/-- Whether a cell is the first one outside ASCII of the first row that has such a cell. -/
structure IsFirstForeign (g : Canvas width height) (r : Fin height) (c : Fin width) : Prop where
  foreign : 128 ≤ g.get r c
  row_before : ∀ c' < c, g.get r c' < 128
  rows_before : ∀ r' < r, ∀ c', g.get r' c' < 128

/-- A grid is refused for its first cell outside ASCII, row by row. -/
theorem text_eq_error_iff {fault : EncodingFault} :
    text g v = .error fault ↔ ∃ r c, IsFirstForeign g r c ∧ fault = ⟨g.get r c, c⟩ := by
  have hmap : text g v = .error fault ↔
      (g.rows.toList.mapM fun row => rowText row.toList) = .error fault := by
    rw [text_eq]
    cases g.rows.toList.mapM fun row => rowText row.toList <;> simp [Except.map]
  have hrow : ∀ {r : Nat} {row : Vector UInt8 width}, g.rows.toList[r]? = some row ↔
      ∃ h : r < height, g.rows[r] = row := by
    intro r row
    rw [Vector.getElem?_toList, Vector.getElem?_eq_some_iff]
  have hcell : ∀ {row : Vector UInt8 width} {c : Nat} {b : UInt8}, row.toList[c]? = some b ↔
      ∃ h : c < width, row[c] = b := by
    intro row c b
    rw [Vector.getElem?_toList, Vector.getElem?_eq_some_iff]
  rw [hmap, List.mapM_eq_error_iff]
  simp only [rowText_ok_iff, rowText_eq_error_iff]
  constructor
  · rintro ⟨r, row, hr, ⟨c, b, hc, hforeign, hbefore, rfl⟩, habove⟩
    obtain ⟨hheight, rfl⟩ := hrow.1 hr
    obtain ⟨hwidth, rfl⟩ := hcell.1 hc
    refine ⟨⟨r, hheight⟩, ⟨c, hwidth⟩, ⟨hforeign, fun c' hc' => ?_, fun r' hr' c' => ?_⟩, rfl⟩
    · exact hbefore c' hc' _ (hcell.2 ⟨c'.isLt, rfl⟩)
    · exact habove r' hr' _ (hrow.2 ⟨r'.isLt, rfl⟩) _
        (List.mem_of_getElem? (hcell.2 ⟨c'.isLt, rfl⟩))
  · rintro ⟨r, c, h, rfl⟩
    refine ⟨r, g.rows[r], hrow.2 ⟨r.isLt, rfl⟩,
      ⟨c, g.get r c, hcell.2 ⟨c.isLt, rfl⟩, h.foreign, fun j hj a ha => ?_, rfl⟩,
      fun j hj row hr b hb => ?_⟩
    · obtain ⟨hwidth, rfl⟩ := hcell.1 ha
      exact h.row_before ⟨j, hwidth⟩ hj
    · obtain ⟨hheight, rfl⟩ := hrow.1 hr
      obtain ⟨k, hk⟩ := List.mem_iff_getElem?.1 hb
      obtain ⟨hwidth, rfl⟩ := hcell.1 hk
      exact h.rows_before ⟨j, hheight⟩ hj ⟨k, hwidth⟩

theorem lt_of_text_eq_ok {t : Text} (h : text g v = .ok t) (r : Fin height) (c : Fin width) :
    g.get r c < 128 := by
  rw [text_eq] at h
  cases hrows : g.rows.toList.mapM fun row => rowText row.toList with
  | error fault =>
    rw [hrows] at h
    cases h
  | ok rows =>
    have hrow := List.ok_of_mapM_ok hrows g.rows[r] (by simp)
    exact rowText_ok_iff.1 hrow _ (by simp [Canvas.get])

/-- Whether a grid can be printed. -/
theorem exists_text_eq_error_iff :
    (∃ fault, text g v = .error fault) ↔ ∃ r c, 128 ≤ g.get r c := by
  constructor
  · rintro ⟨fault, h⟩
    obtain ⟨r, c, hfirst, -⟩ := text_eq_error_iff.1 h
    exact ⟨r, c, hfirst.foreign⟩
  · rintro ⟨r, c, hforeign⟩
    cases h : text g v with
    | error fault => exact ⟨fault, rfl⟩
    | ok t => exact absurd (lt_of_text_eq_ok h r c) (UInt8.not_lt.2 hforeign)

theorem eq_of_text_eq_ok {t : Text} (h : text g v = .ok t) :
    t = Text.joinLines (framed width (rowTexts g) v) := by
  have hrows := mapM_rowText_eq (lt_of_text_eq_ok h)
  rw [text_eq, hrows] at h
  cases h
  rfl

end Frame

end ZeroCurve

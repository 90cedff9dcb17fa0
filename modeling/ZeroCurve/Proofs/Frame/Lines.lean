import ZeroCurve.Proofs.Frame.Foreign
import ZeroCurve.Proofs.Numeral.Form
import ZeroCurve.Proofs.Picture.Drawn
import ZeroCurve.Proofs.Text.Parts

/-!
# What a frame shows

A frame without line feeds among its codes has a line for every row, from which the row is read
back (`rowsShown_text`). With or without them, no two grids have the same frame at one view
(`eq_of_text_eq`).
-/

namespace ZeroCurve

namespace Frame

variable {width height : Nat} {g : Canvas width height} {v : View Float}

/-- The code of a character. -/
def code (c : Char) : UInt8 := UInt8.ofNat c.toNat

theorem toNat_ofNat_toNat (b : UInt8) : (Char.ofNat b.toNat).toNat = b.toNat := by
  have hvalid : b.toNat.isValidChar := .inl (Nat.lt_trans b.toNat_lt (by decide))
  rw [Char.ofNat, dif_pos hvalid]
  rfl

theorem code_ofNat_toNat (b : UInt8) : code (Char.ofNat b.toNat) = b := by
  rw [code, toNat_ofNat_toNat, UInt8.ofNat_toNat]

/-- The codes of a grid, row by row. -/
def codes (g : Canvas width height) : List (List UInt8) := g.rows.toList.map Vector.toList

theorem eq_of_codes_eq {g g' : Canvas width height} (h : codes g = codes g') : g = g' := by
  obtain ⟨rows⟩ := g
  obtain ⟨rows'⟩ := g'
  have hrows : rows.toList = rows'.toList :=
    (List.map_inj_right fun _ _ => Vector.toList_inj.1).1 h
  rw [Vector.toList_inj.1 hrows]

theorem map_code_rowTexts (g : Canvas width height) : (rowTexts g).map (·.map code) = codes g := by
  have hrow : code ∘ (fun b : UInt8 => Char.ofNat b.toNat) = id := funext code_ofNat_toNat
  simp [rowTexts, codes, hrow]

theorem length_rowTexts (g : Canvas width height) : (rowTexts g).length = height := by
  simp [rowTexts]

theorem length_of_mem_rowTexts {g : Canvas width height} {row : Text} (h : row ∈ rowTexts g) :
    row.length = width := by
  obtain ⟨codes, -, rfl⟩ := List.mem_map.1 h
  simp

theorem length_border (width : Nat) : (border width).length = width + 2 := by
  simp [border]

theorem map_length_framed (g : Canvas width height) (v : View Float) :
    (framed width (rowTexts g) v).map List.length =
      (width + 2) :: List.replicate height (width + 2) ++ [width + 2, 0, (caption v).length] := by
  have hrows : ((rowTexts g).map barred).map List.length = List.replicate height (width + 2) := by
    rw [List.eq_replicate_iff, List.length_map, List.length_map, length_rowTexts]
    refine ⟨rfl, fun n hn => ?_⟩
    simp only [List.mem_map, exists_exists_and_eq_and] at hn
    obtain ⟨row, hrow, rfl⟩ := hn
    simp [barred, length_of_mem_rowTexts hrow]
  simp [framed, hrows, length_border]

theorem lineFeed_notMem_border (width : Nat) : '\n' ∉ border width := by
  simp [border, List.mem_replicate]

theorem lineFeed_notMem_fixed (places : Nat) (a : Float) : '\n' ∉ Numeral.fixed places a := by
  intro hfeed
  have hmark := Numeral.isFixedMark_of_mem_fixed '\n' hfeed
  have hnone : Numeral.isFixedMark '\n' = false := rfl
  rw [hnone] at hmark
  cases hmark

theorem lineFeed_notMem_caption (v : View Float) : '\n' ∉ caption v := by
  have hwords : '\n' ∉ "Plot (Zoom: ".toList ∧ '\n' ∉ ", Offset: ".toList ∧
      '\n' ∉ ", ".toList ∧ '\n' ∉ ")".toList := by decide
  obtain ⟨hzoom, hoffset, hcomma, hclose⟩ := hwords
  have hnumber := lineFeed_notMem_fixed 2
  unfold caption
  simp only [List.mem_append, not_or]
  exact ⟨⟨⟨⟨⟨⟨hzoom, hnumber _⟩, hoffset⟩, hnumber _⟩, hcomma⟩, hnumber _⟩, hclose⟩

/-- The lines above the rows, the rows themselves and the lines below have no line feed, if none of
the codes is one. -/
theorem lineFeed_notMem_of_mem_framed (h : ∀ r c, g.get r c ≠ code '\n') :
    ∀ line ∈ framed width (rowTexts g) v, '\n' ∉ line := by
  have hrow : ∀ row ∈ rowTexts g, '\n' ∉ row := by
    intro row hrow hmem
    obtain ⟨cells, hcells, rfl⟩ := List.mem_map.1 hrow
    obtain ⟨b, hb, hfeed⟩ := List.mem_map.1 hmem
    obtain ⟨r, c, rfl⟩ := Canvas.exists_get_of_mem hcells hb
    exact h r c (by rw [← hfeed, code_ofNat_toNat])
  intro line hline
  simp only [framed, List.mem_append, List.mem_cons, List.mem_map, List.not_mem_nil, or_false]
    at hline
  rcases hline with (rfl | ⟨row, hmem, rfl⟩) | rfl | rfl | rfl
  · exact lineFeed_notMem_border width
  · simp [barred, hrow row hmem]
  · exact lineFeed_notMem_border width
  · exact List.not_mem_nil
  · exact lineFeed_notMem_caption v

/-- The lines of a frame whose codes are no line feeds. -/
theorem splitLines_text {t : Text} (h : text g v = .ok t) (hfeed : ∀ r c, g.get r c ≠ code '\n') :
    Text.splitLines t = framed width (rowTexts g) v := by
  rw [eq_of_text_eq_ok h]
  exact Text.splitLines_joinLines (by simp [framed]) (lineFeed_notMem_of_mem_framed hfeed)

/-- The rows that a text shows between bars in the lines behind the first one. -/
def rowsShown (height : Nat) (t : Text) : List Text :=
  (((Text.splitLines t).drop 1).take height).map fun line => line.tail.dropLast

/-- The rows of a grid are read back from its frame. -/
theorem rowsShown_text {t : Text} (h : text g v = .ok t) (hfeed : ∀ r c, g.get r c ≠ code '\n') :
    rowsShown height t = rowTexts g := by
  have hrows : ((framed width (rowTexts g) v).drop 1).take height = (rowTexts g).map barred := by
    rw [framed, List.cons_append, List.drop_succ_cons, List.drop_zero]
    exact List.take_left' (by rw [List.length_map, length_rowTexts])
  have hbare : (fun line : Text => line.tail.dropLast) ∘ barred = id := by
    funext row
    simp [barred]
  rw [rowsShown, splitLines_text h hfeed, hrows, List.map_map, hbare, List.map_id]

/-- The first line of a frame, also where rows have line feeds, ends before any row. -/
theorem head?_splitLines_text {t : Text} (h : text g v = .ok t) :
    (Text.splitLines t).head? = some (border width) := by
  have hne : (rowTexts g).map barred ++ [border width, [], caption v] ≠ [] := by simp
  rw [eq_of_text_eq_ok h, framed, Text.joinLines, List.cons_append, Text.joinWith_cons _ _ hne,
    List.append_assoc, List.singleton_append,
    Text.splitLines_append_lineFeed (lineFeed_notMem_border width), List.head?_cons]

theorem width_eq_of_text_eq {width' height' : Nat} {g' : Canvas width' height'} {t : Text}
    (h : text g v = .ok t) (h' : text g' v = .ok t) : width = width' := by
  have hborder := (head?_splitLines_text h).symm.trans (head?_splitLines_text h')
  have hlength := congrArg List.length (Option.some.inj hborder)
  rw [length_border, length_border] at hlength
  omega

theorem length_text {t : Text} (h : text g v = .ok t) :
    t.length = (width + 3) * (height + 2) + (caption v).length + 1 := by
  have hlengths : ((rowTexts g).map barred ++ [border width, [], caption v]).map List.length =
      List.replicate height (width + 2) ++ [width + 2, 0, (caption v).length] :=
    (List.cons.inj (map_length_framed g v)).2
  have hsum : ∀ lines : List Text,
      (lines.map fun line => line.length + 1) = (lines.map List.length).map (· + 1) := fun lines =>
    (List.map_map).symm
  rw [eq_of_text_eq_ok h, framed, List.cons_append, Text.length_joinLines, hsum, hlengths,
    length_border]
  simp only [List.map_append, List.map_replicate, List.map_cons, List.map_nil, List.sum_append,
    List.sum_replicate, List.sum_cons, List.sum_nil, smul_eq_mul]
  ring

/-- No two grids have the same frame at one view. -/
theorem eq_of_text_eq {width' height' : Nat} {g' : Canvas width' height'} {t : Text}
    (h : text g v = .ok t) (h' : text g' v = .ok t) :
    width = width' ∧ height = height' ∧ HEq g g' := by
  obtain rfl := width_eq_of_text_eq h h'
  have hlength := (length_text h).symm.trans (length_text h')
  have hheight : height = height' := by
    have hprod := Nat.add_right_cancel (Nat.add_right_cancel hlength)
    exact Nat.add_right_cancel (Nat.eq_of_mul_eq_mul_left (Nat.succ_pos _) hprod)
  subst hheight
  have hlines : framed width (rowTexts g) v = framed width (rowTexts g') v := by
    apply Text.joinLines_inj
    · rw [map_length_framed, map_length_framed]
    · rw [← eq_of_text_eq_ok h, ← eq_of_text_eq_ok h']
  have hbarred : (rowTexts g).map barred = (rowTexts g').map barred :=
    List.append_cancel_right (List.cons.inj hlines).2
  have hrows : rowTexts g = rowTexts g' := by
    refine (List.map_inj_right fun row row' hrow => ?_).1 hbarred
    exact List.append_cancel_right (List.cons.inj hrow).2
  refine ⟨rfl, rfl, heq_of_eq (eq_of_codes_eq ?_)⟩
  rw [← map_code_rowTexts, ← map_code_rowTexts, hrows]

/-- A grid is refused just if it has a cell outside ASCII, and the first one of the first row that
has one is reported with its column. The text of any other grid is its frame. Without line feeds
among the codes it has a line for each row, between two borders and above an empty line and the
caption, and the rows are what stands in these lines between the bars, as text and as codes. No
other grid, of whatever size, has the same text at the same view. The picture of an equation always
has a text. -/
theorem text_shows_grid (g : Canvas width height) (v : View Float) :
    (∀ fault, text g v = .error fault ↔
      ∃ r c, IsFirstForeign g r c ∧ fault = ⟨g.get r c, c⟩) ∧
    ((∃ fault, text g v = .error fault) ↔ ∃ r c, 128 ≤ g.get r c) ∧
    (∀ t, text g v = .ok t →
      ((∀ r c, g.get r c ≠ code '\n') →
        (Text.splitLines t).length = height + 4 ∧
        (Text.splitLines t)[0]? = some (border width) ∧
        (Text.splitLines t)[height + 1]? = some (border width) ∧
        (border width).length = width + 2 ∧
        rowsShown height t = rowTexts g ∧
        (rowsShown height t).map (·.map code) = codes g) ∧
      ∀ (width' height' : Nat) (g' : Canvas width' height'), text g' v = .ok t →
        width = width' ∧ height = height' ∧ HEq g g') ∧
    ∀ line, ∃ t, Picture.text line v = .ok t := by
  refine ⟨fun fault => text_eq_error_iff, exists_text_eq_error_iff, fun t h => ⟨fun hfeed => ?_,
    fun _ _ g' h' => eq_of_text_eq h h'⟩, fun line => Picture.text_ok line v⟩
  have hlines := splitLines_text h hfeed
  have hbelow : (framed width (rowTexts g) v)[height + 1]? = some (border width) := by
    rw [framed, List.cons_append, List.getElem?_cons_succ,
      List.getElem?_append_right (by rw [List.length_map, length_rowTexts]), List.length_map,
      length_rowTexts, Nat.sub_self, List.getElem?_cons_zero]
  have hrows := rowsShown_text h hfeed
  refine ⟨?_, ?_, ?_, length_border width, hrows, by rw [hrows, map_code_rowTexts]⟩
  · rw [hlines]
    simp [framed, length_rowTexts]
  · rw [hlines]
    rfl
  · rw [hlines, hbelow]

/-- A grid of the characters that frames are made of. -/
def likeFrame : Canvas 3 2 :=
  .ofFn fun r c => if r = 0 then Canvas.axisBar else Canvas.axisMark Canvas.axisDash c

/-- A grid with two cells outside ASCII. -/
def foreign : Canvas 3 2 := (likeFrame.set 1 0 200).set 0 2 128

/-- The grid like a frame has six lines that give it back, and of the other one the cell in column
two of the upper row is reported. -/
theorem text_shows_grid_likeFrame :
    (∃ t, text likeFrame .default = .ok t ∧ (Text.splitLines t).length = 6 ∧
      rowsShown 2 t = [['|', '|', '|'], ['+', '-', '+']]) ∧
    text foreign .default = .error ⟨128, 2⟩ ∧
    (⟨128, 2⟩ : EncodingFault).message =
      "'ascii' codec can't decode byte 0x80 in position 2: ordinal not in range(128)".toList := by
  obtain ⟨t, ht⟩ := text_ok (g := likeFrame) (by decide) .default
  obtain ⟨hlength, -, -, -, hrows, -⟩ :=
    ((text_shows_grid likeFrame .default).2.2.1 t ht).1 (by decide)
  refine ⟨⟨t, ht, hlength, hrows.trans (by decide)⟩, ?_, by decide⟩
  refine ((text_shows_grid foreign .default).1 ⟨128, 2⟩).2 ⟨0, 2, ?_, by decide⟩
  exact ⟨by decide, by decide, by decide⟩

end Frame

end ZeroCurve

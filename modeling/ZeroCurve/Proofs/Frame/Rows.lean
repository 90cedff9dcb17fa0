import ZeroCurve.Frame
import ZeroCurve.Proofs.List.Traversal

/-!
# Grids that can be printed

A grid whose codes are all ASCII has a frame.
-/

namespace ZeroCurve

theorem Canvas.exists_get_of_mem {width height : Nat} {g : Canvas width height}
    {row : Vector UInt8 width} {b : UInt8} (hrow : row ∈ g.rows.toList) (hb : b ∈ row.toList) :
    ∃ r c, g.get r c = b := by
  obtain ⟨r, hr, rfl⟩ := List.getElem_of_mem hrow
  obtain ⟨c, hc, rfl⟩ := List.getElem_of_mem hb
  rw [Vector.length_toList] at hr hc
  exact ⟨⟨r, hr⟩, ⟨c, hc⟩, by simp [Canvas.get]⟩

namespace Frame

theorem rowTextFrom_eq {column : Nat} {row : List UInt8} (h : ∀ b ∈ row, b < 128) :
    rowTextFrom column row = .ok (row.map fun b => Char.ofNat b.toNat) := by
  induction row generalizing column with
  | nil => rfl
  | cons b row ih =>
    rw [rowTextFrom, if_pos (h b List.mem_cons_self),
      ih fun b' hb' => h b' (List.mem_cons_of_mem b hb')]
    rfl

variable {width height : Nat}

/-- The rows of a grid as characters. -/
def rowTexts (g : Canvas width height) : List Text :=
  g.rows.toList.map fun row => row.toList.map fun b => Char.ofNat b.toNat

theorem mapM_rowText_eq {g : Canvas width height} (h : ∀ r c, g.get r c < 128) :
    (g.rows.toList.mapM fun row => rowText row.toList) = .ok (rowTexts g) := by
  refine List.mapM_ok fun row hrow => rowTextFrom_eq fun b hb => ?_
  obtain ⟨r, c, rfl⟩ := Canvas.exists_get_of_mem hrow hb
  exact h r c

/-- A grid of ASCII codes can be printed. -/
theorem text_ok {g : Canvas width height} (h : ∀ r c, g.get r c < 128) (v : View Float) :
    ∃ t, text g v = .ok t := by
  rw [text, parts, mapM_rowText_eq h]
  exact ⟨_, rfl⟩

end Frame

end ZeroCurve

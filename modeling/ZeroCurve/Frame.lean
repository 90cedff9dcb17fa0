import ZeroCurve.Canvas
import ZeroCurve.View
import ZeroCurve.Scalar.Double
import ZeroCurve.Numeral.Layout

/-!
# Frames

A grid as printed: a border, every row between bars, the border again, an empty line and the view. A
grid with a code outside ASCII cannot be printed; the first such code of the first row that has one
is reported.
-/

namespace ZeroCurve

/-- Why a grid cannot be printed: a code outside ASCII, and its column. -/
structure EncodingFault where
  code : UInt8
  column : Nat
deriving DecidableEq, Repr

namespace EncodingFault

/-- The two digits of a byte to base sixteen. -/
def byteText (b : UInt8) : Text := [Nat.digitChar (b.toNat / 16), Nat.digitChar (b.toNat % 16)]

/-- The wording of the fault. -/
def message (f : EncodingFault) : Text :=
  "'ascii' codec can't decode byte 0x".toList ++ byteText f.code ++ " in position ".toList ++
    Nat.toDigits 10 f.column ++ ": ordinal not in range(128)".toList

end EncodingFault

namespace Frame

/-- The characters of a row of codes whose first one is in this column. -/
def rowTextFrom (column : Nat) : List UInt8 → Except EncodingFault Text
  | [] => .ok []
  | b :: bs =>
    if b < 128 then do return Char.ofNat b.toNat :: (← rowTextFrom (column + 1) bs)
    else .error ⟨b, column⟩

/-- The characters of a row of codes. -/
def rowText (row : List UInt8) : Except EncodingFault Text := rowTextFrom 0 row

/-- The line above and below the rows. -/
def border (width : Nat) : Text := '+' :: List.replicate width '-' ++ ['+']

/-- A row between bars. -/
def barred (row : Text) : Text := '|' :: row ++ ['|']

/-- The line that tells the view. -/
def caption (v : View Float) : Text :=
  "Plot (Zoom: ".toList ++ Numeral.fixed 2 v.zoom ++ ", Offset: ".toList ++
    Numeral.fixed 2 v.xOffset ++ ", ".toList ++ Numeral.fixed 2 v.yOffset ++ ")".toList

/-- The parts of a frame, of which a row with a line feed makes more than one line. -/
def parts {width height : Nat} (g : Canvas width height) (v : View Float) :
    Except EncodingFault (List Text) := do
  let rows ← g.rows.toList.mapM fun row => rowText row.toList
  return border width :: rows.map barred ++ [border width, [], caption v]

/-- The printed grid. -/
def text {width height : Nat} (g : Canvas width height) (v : View Float) :
    Except EncodingFault Text :=
  (parts g v).map Text.joinLines

end Frame

end ZeroCurve

import ZeroCurve.Token
import ZeroCurve.Scalar.Double
import ZeroCurve.Numeral.Layout

/-!
# Token listing

Tokens written for a reader: each by its kind and what it carries, a number by its value.
-/

namespace ZeroCurve.Token

/-- A kind with its payload in brackets and quotes. -/
def quoted (kind : String) (payload : Text) : Text :=
  kind.toList ++ "('".toList ++ payload ++ "')".toList

/-- A token by its kind and payload. -/
def describe (t : Token) : Text :=
  match t with
  | .number _ => "Number(".toList ++ Numeral.shortest t.value ++ ")".toList
  | .var _ => quoted "Variable" t.text
  | .operator _ => quoted "Operator" t.text
  | .function _ => quoted "Function" t.text
  | .leftParen => "LParen".toList
  | .rightParen => "RParen".toList
  | .equals => "Equals".toList

/-- The descriptions with a blank between each two. -/
def listing (ts : List Token) : Text := Text.joinWith [' '] (ts.map describe)

end ZeroCurve.Token

import ZeroCurve.Operation

/-!
# Tokens

The words of an equation. A number keeps its spelling, and its value is read off the spelling, so
two spellings of one number are two tokens with one value. A token knows its text, and
`Token.WellFormed` says which tokens are read from some text.
-/

namespace ZeroCurve

/-- A word of an equation. -/
inductive Token where
  | number (text : Text)
  | var (name : Text)
  | function (fn : Fn)
  | operator (op : Op)
  | leftParen
  | rightParen
  | equals
deriving DecidableEq, Repr

namespace Token

/-- The characters that numbers are made of. A number may hold any count of points. -/
def isNumeral (c : Char) : Bool := ('0' ≤ c && c ≤ '9') || c == '.'

/-- The characters that names are made of: the letters of ASCII. -/
def isLetter (c : Char) : Bool := ('a' ≤ c && c ≤ 'z') || ('A' ≤ c && c ≤ 'Z')

/-- The token of a whole name: a function if it is one of theirs, else a variable. -/
def ofName (name : Text) : Token :=
  match Fn.ofName? name with
  | some f => .function f
  | none => .var name

/-- The token of a single sign. -/
def ofSign? (c : Char) : Option Token :=
  if c = '=' then some .equals
  else if c = '(' then some .leftParen
  else if c = ')' then some .rightParen
  else (Op.ofSymbol? c).map .operator

/-- The characters of a token. -/
def text : Token → Text
  | .number text => text
  | .var name => name
  | .function f => f.name
  | .operator o => [o.symbol]
  | .leftParen => ['(']
  | .rightParen => [')']
  | .equals => ['=']

/-- The value of a number token; any other token counts as zero. -/
def value {α : Type} [Scalar α] : Token → α
  | .number text => Scalar.ofDecimal (Decimal.leading text)
  | _ => Scalar.ofInt 0

/-- The tokens that stand in some text: a number is a run of numerals, and a variable is a run of
letters that is no function's name. -/
def WellFormed : Token → Prop
  | .number text => text ≠ [] ∧ ∀ c ∈ text, isNumeral c
  | .var name => name ≠ [] ∧ (∀ c ∈ name, isLetter c) ∧ Fn.ofName? name = none
  | _ => True

theorem text_ofName (name : Text) : (ofName name).text = name := by
  unfold ofName
  cases h : Fn.ofName? name with
  | none => rfl
  | some f => exact Fn.name_of_ofName? h

theorem text_of_ofSign? {c : Char} {t : Token} (h : ofSign? c = some t) : t.text = [c] := by
  unfold ofSign? at h
  split at h
  · cases h; simp [text, *]
  split at h
  · cases h; simp [text, *]
  split at h
  · cases h; simp [text, *]
  obtain ⟨o, ho, rfl⟩ := Option.map_eq_some_iff.1 h
  simp [text, Op.symbol_of_ofSymbol? ho]

end Token

end ZeroCurve

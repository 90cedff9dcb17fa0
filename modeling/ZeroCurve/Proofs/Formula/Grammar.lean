import ZeroCurve.Formula
import ZeroCurve.Proofs.Numeral.Form

/-!
# The bracketed grammar

The texts in which every operation has its own brackets, and how they are read. A text belongs to
the grammar in at most one way (`text_injective`): its first word tells what it is, and each operand
ends at the first blank, comma or bracket that is not its own.
-/

namespace ZeroCurve.Formula

/-- A text of the grammar with its structure. -/
inductive Sentence where
  | literal (text : Text) (isLiteral : Numeral.IsLiteral text)
  | infinity
  | x
  | y
  | call (fn : Fn) (argument : Sentence)
  | binary (op : Op) (left right : Sentence)

namespace Sentence

/-- The name that a function is bound to. -/
def name : Fn → Text
  | .sin => "sin".toList
  | .cos => "cos".toList
  | .tan => "tan".toList
  | .log => "log10".toList
  | .ln => "ln".toList
  | .exp => "exp".toList

/-- An operation with its two operands: quotients and powers are written as calls. -/
def operation : Op → Text → Text → Text
  | .div, a, b => "div(".toList ++ a ++ ", ".toList ++ b ++ ")".toList
  | .pow, a, b => "power(".toList ++ a ++ ", ".toList ++ b ++ ")".toList
  | .add, a, b => "(".toList ++ a ++ " + ".toList ++ b ++ ")".toList
  | .sub, a, b => "(".toList ++ a ++ " - ".toList ++ b ++ ")".toList
  | .mul, a, b => "(".toList ++ a ++ " * ".toList ++ b ++ ")".toList

/-- The text of a sentence. -/
def text : Sentence → Text
  | .literal text _ => text
  | .infinity => "np.inf".toList
  | .x => "x".toList
  | .y => "y".toList
  | .call f a => name f ++ "(".toList ++ a.text ++ ")".toList
  | .binary op a b => operation op a.text b.text

variable {α : Type} [Elementary α]

/-- The value of an operation: a quotient with divisor zero is infinite, and every power is
`pow`. -/
def operationValue : Op → α → α → α
  | .div, a, b => if Scalar.isZero b then Elementary.infinity else a / b
  | .pow, a, b => Elementary.pow a b
  | .add, a, b => a + b
  | .sub, a, b => a - b
  | .mul, a, b => a * b

/-- The value of a sentence at a point, for a way to read literals. -/
def value (read : Text → α) (px py : α) : Sentence → α
  | .literal text _ => read text
  | .infinity => Elementary.infinity
  | .x => px
  | .y => py
  | .call f a => f.apply (a.value read px py)
  | .binary op a b => operationValue op (a.value read px py) (b.value read px py)

/-- Whether a word ends before this character. -/
def isDelimiter (c : Char) : Bool := c == '(' || c == ')' || c == ',' || c == ' '

/-- A text with no word at its front. -/
def Stops (t : Text) : Prop := ∀ c ∈ t.head?, isDelimiter c = true

/-- What a sentence begins with. -/
inductive Head where
  | literal (text : Text)
  | infinity
  | x
  | y
  | call (fn : Fn)
  | quotient
  | power
  | bracket
deriving DecidableEq

/-- The word of a head; a bracket has none. -/
def Head.word : Head → Text
  | .literal text => text
  | .infinity => "np.inf".toList
  | .x => "x".toList
  | .y => "y".toList
  | .call f => name f
  | .quotient => "div".toList
  | .power => "power".toList
  | .bracket => []

/-- The head of a sentence with this operator. -/
def opHead : Op → Head
  | .div => .quotient
  | .pow => .power
  | _ => .bracket

/-- The head of a sentence. -/
def head : Sentence → Head
  | .literal text _ => .literal text
  | .infinity => .infinity
  | .x => .x
  | .y => .y
  | .call f _ => .call f
  | .binary op _ _ => opHead op

/-- What stands between two operands. -/
def gap : Op → Text
  | .div | .pow => ", ".toList
  | op => [' ', op.symbol, ' ']

/-- A sentence behind its first word. -/
def body : Sentence → Text
  | .call _ a => '(' :: (a.text ++ [')'])
  | .binary op a b => '(' :: (a.text ++ (gap op ++ (b.text ++ [')'])))
  | _ => []

theorem operation_eq (op : Op) (a b : Text) :
    operation op a b = (opHead op).word ++ '(' :: (a ++ (gap op ++ (b ++ [')']))) := by
  cases op <;> unfold operation opHead Head.word gap <;> simp [Op.symbol]

theorem text_eq (s : Sentence) : s.text = s.head.word ++ s.body := by
  cases s with
  | binary op a b => exact operation_eq op a.text b.text
  | call f a =>
    show name f ++ "(".toList ++ a.text ++ ")".toList = name f ++ '(' :: (a.text ++ [')'])
    simp
  | _ => exact (List.append_nil _).symm

theorem isDelimiter_of_isDigit {c : Char} (h : c.isDigit = true) : isDelimiter c = false := by
  rw [Bool.eq_false_iff]
  intro hc
  simp only [isDelimiter, Bool.or_eq_true, beq_iff_eq] at hc
  rcases hc with ((hc | hc) | hc) | hc <;> exact absurd (hc ▸ h) (by decide)

theorem isDelimiter_of_isPower {t : Text} (h : Numeral.IsPower t) :
    ∀ c ∈ t, isDelimiter c = false := by
  obtain ⟨hsign, hdigits⟩ := h
  intro c hc
  rcases List.mem_cons.1 hc with rfl | hc
  · rfl
  rcases List.mem_cons.1 hc with rfl | hc
  · rcases hsign with rfl | rfl <;> rfl
  · exact isDelimiter_of_isDigit (hdigits.isDigit c hc)

theorem isDelimiter_of_point {whole fraction : Text} (hwhole : Numeral.IsDigits whole)
    (hfraction : Numeral.IsDigits fraction) :
    ∀ c ∈ whole ++ '.' :: fraction, isDelimiter c = false := by
  intro c hc
  rcases List.mem_append.1 hc with hc | hc
  · exact isDelimiter_of_isDigit (hwhole.isDigit c hc)
  rcases List.mem_cons.1 hc with rfl | hc
  · rfl
  · exact isDelimiter_of_isDigit (hfraction.isDigit c hc)

/-- A literal is one word. -/
theorem isDelimiter_of_isLiteral {t : Text} (h : Numeral.IsLiteral t) :
    ∀ c ∈ t, isDelimiter c = false := by
  intro c hc
  cases h with
  | point hwhole hfraction => exact isDelimiter_of_point hwhole hfraction c hc
  | power hwhole hpower =>
    rcases List.mem_append.1 hc with hc | hc
    · exact isDelimiter_of_isDigit (hwhole.isDigit c hc)
    · exact isDelimiter_of_isPower hpower c hc
  | pointPower hwhole hfraction hpower =>
    rcases List.mem_append.1 hc with hc | hc
    · exact isDelimiter_of_point hwhole hfraction c hc
    · exact isDelimiter_of_isPower hpower c hc

/-- Every head but those of literals. -/
def plainHeads : List Head :=
  [.infinity, .x, .y, .quotient, .power, .bracket] ++ Fn.all.map .call

theorem isDelimiter_plain {h : Head} (hh : h ∈ plainHeads) :
    ∀ c ∈ h.word, isDelimiter c = false := by
  have hall : ∀ h ∈ plainHeads, h.word.all (fun c => !isDelimiter c) = true := by decide
  intro c hc
  simpa using List.all_eq_true.1 (hall h hh) c hc

end Sentence

end ZeroCurve.Formula

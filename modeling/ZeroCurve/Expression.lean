import ZeroCurve.Token

/-!
# Expressions

A list of tokens is read by cutting it: at the operator that binds loosest among those outside all
parentheses, and at the last such operator where several bind alike, so that every operator groups
to the left. What has no such operator is a call, a group in parentheses, or unreadable. `shape` is
one step of this reading and `value` is what the whole reading computes. No list of tokens is
refused: an empty or unreadable part counts as zero.
-/

namespace ZeroCurve.Expression

/-- A list of tokens cut at an operator. -/
structure Cut where
  left : List Token
  op : Op
  right : List Token
deriving DecidableEq, Repr

/-- The same cut with one more token in front. -/
def Cut.behind (t : Token) (c : Cut) : Cut := { c with left := t :: c.left }

/-- The tokens that were cut. -/
def Cut.tokens (c : Cut) : List Token := c.left ++ .operator c.op :: c.right

/-- By how many a list has more closing than opening parentheses, and its best cut: an operator that
has as many of the one as of the other to its right is taken if it binds looser than all those
operators to its right. -/
def scanCut : List Token → Int × Option Cut
  | [] => (0, none)
  | t :: ts =>
    let (depth, best) := scanCut ts
    let kept := best.map (Cut.behind t)
    match t with
    | .rightParen => (depth + 1, kept)
    | .leftParen => (depth - 1, kept)
    | .operator o =>
      let loosest := depth = 0 ∧ best.all (fun c => o.precedence < c.op.precedence)
      (depth, if loosest then some ⟨[], o, ts⟩ else kept)
    | _ => (depth, kept)

/-- The cut at the loosest operator outside parentheses, the last one if several bind alike. -/
def loosestCut (ts : List Token) : Option Cut := (scanCut ts).2

/-- Whether a list begins with a function. -/
def isCall : List Token → Bool
  | .function _ :: _ => true
  | _ => false

/-- Whether a list begins with an opening and ends with a closing parenthesis. -/
def isGroup (ts : List Token) : Bool :=
  ts.head? = some .leftParen && ts.getLast? = some .rightParen

/-- What a list of tokens is, one step deep. -/
inductive Shape where
  /-- No tokens at all, as beside an operator that lacks an operand. -/
  | empty
  | atom (t : Token)
  | binary (left : List Token) (op : Op) (right : List Token)
  | call (fn : Fn) (argument : List Token)
  | group (inner : List Token)
  | unreadable
deriving DecidableEq, Repr

/-- The lists of tokens that a shape is made of. -/
def Shape.parts : Shape → List (List Token)
  | .binary left _ right => [left, right]
  | .call _ argument => [argument]
  | .group inner => [inner]
  | _ => []

/-- The shape of a list of two tokens or more that has no operator outside parentheses. A call takes
what stands between its second and its last token, whatever these two are. -/
def unsplitShape (ts : List Token) : Shape :=
  match ts with
  | .function f :: rest => .call f rest.tail.dropLast
  | _ => if isGroup ts then .group ts.tail.dropLast else .unreadable

/-- The shape of a list of tokens. -/
def shape : List Token → Shape
  | [] => .empty
  | [t] => .atom t
  | ts =>
    match loosestCut ts with
    | some c => .binary c.left c.op c.right
    | none => unsplitShape ts

theorem tokens_behind (t : Token) (c : Cut) : (c.behind t).tokens = t :: c.tokens := rfl

theorem tokens_of_scanCut {ts : List Token} {c : Cut} (h : (scanCut ts).2 = some c) :
    c.tokens = ts := by
  induction ts generalizing c with
  | nil => simp [scanCut] at h
  | cons t ts ih =>
    have kept : ∀ c, (scanCut ts).2.map (Cut.behind t) = some c → c.tokens = t :: ts := by
      intro c hc
      obtain ⟨b, hb, rfl⟩ := Option.map_eq_some_iff.1 hc
      rw [tokens_behind, ih hb]
    cases t with
    | operator o =>
      simp only [scanCut] at h
      split at h
      · cases h; rfl
      · exact kept c h
    | _ => exact kept c h

/-- A cut loses nothing. -/
theorem tokens_of_loosestCut {ts : List Token} {c : Cut} (h : loosestCut ts = some c) :
    c.tokens = ts := tokens_of_scanCut h

theorem length_lt_of_unsplitShape {ts p : List Token} (h : p ∈ (unsplitShape ts).parts) :
    p.length < ts.length := by
  unfold unsplitShape at h
  split at h
  · simp only [Shape.parts, List.mem_singleton] at h
    subst h
    simp only [List.length_dropLast, List.length_tail, List.length_cons]
    omega
  · split at h
    · simp only [Shape.parts, List.mem_singleton] at h
      subst h
      cases ts with
      | nil => simp_all [isGroup]
      | cons t ts =>
        simp only [List.length_dropLast, List.length_tail, List.length_cons]
        omega
    · simp [Shape.parts] at h

/-- Reading goes on with shorter lists only. -/
theorem length_lt_of_mem_parts {ts p : List Token} (h : p ∈ (shape ts).parts) :
    p.length < ts.length := by
  unfold shape at h
  split at h
  · simp [Shape.parts] at h
  · simp [Shape.parts] at h
  · split at h
    next c hc =>
      have hl := congrArg List.length (tokens_of_loosestCut hc)
      simp only [Cut.tokens, List.length_append, List.length_cons] at hl
      simp only [Shape.parts, List.mem_cons, List.not_mem_nil, or_false] at h
      rcases h with rfl | rfl <;> omega
    next => exact length_lt_of_unsplitShape h

variable {α : Type} [Elementary α]

/-- The value of a single token: a number's own, the coordinate for `x` and `y`, and else zero. -/
def atomValue (x y : α) (t : Token) : α :=
  if t = .var ['x'] then x else if t = .var ['y'] then y else t.value

/-- The value of a list of tokens at a point. -/
def value (x y : α) (ts : List Token) : α :=
  match _h : shape ts with
  | .empty => Scalar.ofInt 0
  | .atom t => atomValue x y t
  | .binary left op right => op.apply (value x y left) (value x y right)
  | .call f argument => f.apply (value x y argument)
  | .group inner => value x y inner
  | .unreadable => Scalar.ofInt 0
termination_by ts.length
decreasing_by all_goals exact length_lt_of_mem_parts (by simp [_h, Shape.parts])

end ZeroCurve.Expression

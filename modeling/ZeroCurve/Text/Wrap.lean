import ZeroCurve.Text.Blank

/-!
# Wrapped text

Words in lines that are no wider than a screen. Each line takes as many words as it has room for.
-/

namespace ZeroCurve.Text

/-- The words of a text, which blanks separate. -/
def words (t : Text) : List Text := (t.splitOnP isBlank).filter (· ≠ [])

/-- Words behind those that stand on a line already, and below it once there is no room left. -/
def fill (width : Nat) (line : Text) : List Text → List Text
  | [] => [line]
  | word :: rest =>
    if line.length + 1 + word.length ≤ width then fill width (line ++ ' ' :: word) rest
    else line :: fill width word rest

/-- Words in lines. A word that is too wide has a line to itself. -/
def wrap (width : Nat) : List Text → List Text
  | [] => []
  | word :: rest => fill width word rest

/-- Words in lines behind a head: the first line follows it, and the others begin where it ends. -/
def hang (width : Nat) (head : Text) (words : List Text) : List Text :=
  match wrap (width - head.length) words with
  | [] => [head]
  | first :: rest => (head ++ first) :: rest.map (List.replicate head.length ' ' ++ ·)

end ZeroCurve.Text

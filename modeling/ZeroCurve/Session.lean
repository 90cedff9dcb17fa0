import ZeroCurve.Dialogue
import ZeroCurve.Equation
import ZeroCurve.Text.Blank
import ZeroCurve.View

/-!
# Sessions

Looking around in the plot of an equation. The picture and the menu are shown before every command;
a line may hold several commands, and a new equation drops what is left of its line. How a picture
is drawn is left open here.
-/

namespace ZeroCurve.Session

/-- What the user may write in an equation. -/
def instructions : Text := Text.joinLines [
  [],
  "Instruction:".toList,
  "   -Supports +, -, *, /, ^, sin, cos, tan, log, ln, exp.".toList,
  "   -Does not support asin, acos, atan, or advanced functions like abs or floor.".toList,
  "   -Avoid undefined operations like division by zero.".toList]

/-- The menu of commands. -/
def menu : Text := Text.joinLines [
  [],
  "Options:".toList,
  "1. Zoom in (+)".toList,
  "2. Zoom out (-)".toList,
  "3. Move left (<)".toList,
  "4. Move right (>)".toList,
  "5. Move up (^)".toList,
  "6. Move down (v)".toList,
  "7. New equation".toList,
  "8. Exit".toList]

/-- The answer to an unknown command. -/
def invalidNotice : Text := "Invalid option!".toList

/-- The commands on a line: every character but the blanks is one. -/
def codes (line : Text) : Text := line.filter (!Text.isBlank ·)

/-- The commands on the first line that has any, and the lines behind it. -/
def readCodes : List Text → Option (Text × List Text)
  | [] => none
  | line :: lines => if codes line = [] then readCodes lines else some (codes line, lines)

/-- Why a session breaks off: a view that is none, or a picture that cannot be drawn. -/
inductive Fault (α ε : Type) where
  | view (fault : ViewFault α)
  | picture (fault : ε)
deriving Repr

/-- What a session waits for: a command on the plot of an equation, or a new equation to be plotted
at a view. -/
inductive State (α : Type) [Scalar α] where
  | command (equation : Text) (view : View α)
  | equation (view : View α)

/-- How a session ends: with its last view, or broken off. -/
abbrev Result (α ε : Type) [Scalar α] := Except (Fault α ε) (View α)

variable {α ε : Type} [Scalar α] (draw : Text → View α → Except ε Text)

/-- The turn with the picture and the menu before it. -/
def present (equation : Text) (view : View α) (next : Turn (State α) (Result α ε)) :
    Turn (State α) (Result α ε) :=
  match draw equation view with
  | .ok picture => next.after [.print picture, .print menu]
  | .error fault => .finish (.error (.picture fault))

/-- The turn on the commands of a line, when the picture has been shown: it asks for more commands
when all are done. -/
def obey (equation : Text) (view : View α) : Text → Turn (State α) (Result α ε)
  | [] => .ask (.command equation view)
  | code :: rest =>
    match view.apply [code] with
    | .error fault => .finish (.error (.view fault))
    | .ok (next, .exit) => .finish (.ok next)
    | .ok (next, .newEquation) => .ask (.equation next)
    | .ok (next, .redraw) => present draw equation next (obey equation next rest)
    | .ok (next, .invalid) =>
      (present draw equation next (obey equation next rest)).after [.print invalidNotice]

/-- The turn that begins a session with the equation of a line. -/
def start (line : Text) (view : View α) : Turn (State α) (Result α ε) :=
  let equation := Equation.normalize line
  present draw equation view (.ask (.command equation view))

/-- The rules of a session. The end of the input ends it with an empty line. -/
def dialogue : Dialogue (State α) (Result α ε) where
  prompt
    | .command _ _ => "Choose option: ".toList
    | .equation _ => "Enter new equation: ".toList
  reply
    | .command equation view, line => obey draw equation view (codes line)
    | .equation view, line => start draw line view
  close
    | .command _ view => ([.print []], .ok view)
    | .equation view => ([.print []], .ok view)

/-- The session with the equation of a line, from a view on, over these lines. -/
def run (line : Text) (view : View α) (lines : List Text) : Transcript (Result α ε) :=
  (dialogue draw).run lines (start draw line view)

end ZeroCurve.Session

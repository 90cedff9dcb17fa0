import ZeroCurve.CommandLine.Options
import ZeroCurve.Text.Wrap

/-!
# Help

What the program says of its options: in one paragraph how it is called, and for a user who asks for
help also what each of them is for.
-/

namespace ZeroCurve.CommandLine

/-- The name of the program in its messages. -/
def programName : Text := "implicit-plot".toList

/-- What the program is for. -/
def description : Text :=
  ("Plot implicit equations in x and y on a character grid.\n" ++
    "Supports + - * / ^, sin cos tan log ln exp and parentheses.").toList

/-- The width of all lines: two columns of the usual screen stay free. -/
def screenWidth : Nat := 78

namespace Key

/-- What stands for the values of an option. -/
def placeholders : Key → List Text
  | .help | .interactive | .showTokens | .timing => []
  | .equation => ["EQ".toList]
  | .zoom => ["ZOOM".toList]
  | .xOffset => ["XOFF".toList]
  | .yOffset => ["YOFF".toList]
  | .out => ["OUT".toList]
  | .probe => ["X".toList, "Y".toList]

theorem length_placeholders (k : Key) : k.placeholders.length = k.arity := by
  cases k <;> rfl

/-- What an option is for. -/
def purpose : Key → Text
  | .help => "show this help message and exit".toList
  | .equation => "Equation like 'y=x^2' or 'x^2+y^2=4' (prompted when missing).".toList
  | .zoom => "Zoom factor (> 0).".toList
  | .xOffset => "x offset of the view center.".toList
  | .yOffset => "y offset of the view center.".toList
  | .interactive => "Run the zoom/pan menu loop instead of a single render.".toList
  | .out => "Also write the framed plot to this text file.".toList
  | .showTokens => "Print token lists and compiled source for the equation and exit.".toList
  | .probe => "Print left, right and left-right at (X, Y) and exit.".toList
  | .timing => "Print render time.".toList

/-- The option under one of its names, with its values. -/
def called (k : Key) (name : Text) : Text := Text.joinWith [' '] (name :: k.placeholders)

/-- The option under all of its names. -/
def label (k : Key) : Text := Text.joinWith ", ".toList (k.names.map k.called)

/-- The option under its first name, as one that may be left out. -/
def bracketed (k : Key) : Text := '[' :: k.called (k.names.headD []) ++ [']']

/-- How wide the widest label is. -/
def labelWidth : Nat := (all.map fun k => k.label.length).foldl max 0

/-- The label of an option and what it is for. -/
def entry (k : Key) : List Text :=
  let gap := List.replicate (labelWidth - k.label.length) ' '
  Text.hang screenWidth ("  ".toList ++ k.label ++ gap ++ "  ".toList) (Text.words k.purpose)

example : entry .showTokens =
    ["  --show-tokens  Print token lists and compiled source for the equation and".toList,
      "                 exit.".toList] := by
  decide +kernel

end Key

/-- How the program is called. -/
def usage : List Text :=
  Text.hang screenWidth ("usage: ".toList ++ programName ++ [' ']) (Key.all.map Key.bracketed)

/-- What a user sees who asks for help. -/
def helpText : Text := Text.joinLines <|
  usage ++ [[]] ++ Text.wrap screenWidth (Text.words description) ++
    [[], "options:".toList] ++ Key.all.flatMap Key.entry

/-- The last line of a complaint about the command line. -/
def complaint (m : Misuse) : Text := programName ++ ": error: ".toList ++ m.message

/-- A complaint about the command line: how the program is called, and what is wrong. -/
def refusal (m : Misuse) : Text := Text.joinLines (usage ++ [complaint m])

end ZeroCurve.CommandLine

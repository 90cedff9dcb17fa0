import ZeroCurve.CommandLine.Help
import ZeroCurve.Picture
import ZeroCurve.Session
import ZeroCurve.Token.Listing

/-!
# The command line program

One run of the program is a dialogue: it asks for an equation unless the options give one, and then
shows its tokens, probes it at a point, opens a session or plots it once. A zoom that is not
positive ends the run before anything is written or read.
-/

namespace ZeroCurve.CommandLine

/-- Why a run breaks off. -/
inductive Fault where
  | picture (fault : PictureFault)
  | session (fault : Session.Fault Float PictureFault)
deriving Repr

/-- How a run ends. -/
inductive Ending where
  | done
  /-- The run is refused, with a message for the user. -/
  | refused (message : Text)
  | misused (misuse : Misuse)
  | failed (fault : Fault)
deriving Repr

/-- The wording of the fault of a view. -/
def viewMessage : ViewFault Float → Text
  | .zoomNotPositive zoom => "zoom must be > 0, got ".toList ++ Numeral.shortest zoom

/-- What a run waits for: the equation, or what a session waits for. -/
inductive State where
  | equation (options : Options) (view : View Float)
  | session (state : Session.State Float)

/-- Both sides of an equation as tokens, and the source of its function. -/
def tokenLines (e : Equation) : List Text :=
  ["left : ".toList ++ Token.listing e.leftTokens,
   "right: ".toList ++ Token.listing e.rightTokens,
   "compiled:".toList,
   Text.joinLines (e.source Equation.sourceName)]

/-- Both sides of an equation at a point, and their difference. -/
def probeLines (e : Equation) (x y : Float) : List Text :=
  let left := Expression.value x y e.leftTokens
  let right := Expression.value x y e.rightTokens
  ["at x=".toList ++ Numeral.shortest x ++ ", y=".toList ++ Numeral.shortest y ++ ":".toList,
   "  left  = ".toList ++ Numeral.shortest left,
   "  right = ".toList ++ Numeral.shortest right,
   "  f     = ".toList ++ Numeral.shortest (left - right)]

/-- The turn that prints lines and ends the run. -/
def report (lines : List Text) : Turn State Ending := ⟨lines.map .print, .finish .done⟩

/-- A turn of a session as one of a run. -/
def ofSession (t : Turn (Session.State Float) (Session.Result Float PictureFault)) :
    Turn State Ending :=
  t.map .session fun
    | .ok _ => .done
    | .error fault => .failed (.session fault)

/-- The acts that show a picture, and save it as it was shown. -/
def pictureActs (o : Options) (picture : Text) : List Act :=
  (if o.timing then [.printTime] else []) ++ .print picture ::
    match o.out with
    | none => []
    | some path => [.save path (picture ++ ['\n']), .print ("saved: ".toList ++ path)]

/-- The turn that plots an equation once. -/
def plotTurn (o : Options) (equation : Text) (view : View Float) : Turn State Ending :=
  match Picture.text equation view with
  | .error fault => .finish (.failed (.picture fault))
  | .ok picture => ⟨pictureActs o picture, .finish .done⟩

/-- The turn on the equation of a line. -/
def equationTurn (o : Options) (view : View Float) (line : Text) : Turn State Ending :=
  let equation := Equation.normalize line
  if o.showTokens then report (tokenLines (Equation.ofLine equation))
  else
    match o.probe with
    | some (x, y) => report (probeLines (Equation.ofLine equation) x y)
    | none =>
      if o.interactive then ofSession (Session.start Picture.text equation view)
      else plotTurn o equation view

/-- The turn on the options. -/
def optionsTurn (o : Options) : Turn State Ending :=
  match View.make o.zoom o.xOffset o.yOffset with
  | .error fault => .finish (.refused (viewMessage fault))
  | .ok view =>
    (match o.equation with
      | some line => equationTurn o view line
      | none => .ask (.equation o view)).after
        (if o.interactive then [.print Session.instructions] else [])

/-- The first turn of a run. -/
def start (words : List Text) : Turn State Ending :=
  match Options.parse words with
  | .error misuse => .finish (.misused misuse)
  | .ok o => if o.help then report [helpText] else optionsTurn o

/-- The rules of a run. -/
def dialogue : Dialogue State Ending where
  prompt
    | .equation _ _ => "\nEnter equation with 'x' and 'y': ".toList
    | .session s => (Session.dialogue Picture.text).prompt s
  reply
    | .equation o view, line => equationTurn o view line
    | .session s, line => ofSession ((Session.dialogue Picture.text).reply s line)
  close
    | .equation _ _ => ([], .refused "No equation given".toList)
    | .session s =>
      let (acts, result) := (Session.dialogue Picture.text).close s
      (acts, match result with
        | .ok _ => .done
        | .error fault => .failed (.session fault))

/-- The run on the words of a command line and the lines of the input. -/
def run (words lines : List Text) : Transcript Ending := dialogue.run lines (start words)

end ZeroCurve.CommandLine

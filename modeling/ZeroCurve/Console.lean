import ZeroCurve.Dialogue

/-!
# Console

What the events of a dialogue leave behind: the text on the screen and the files. A file that cannot
be written stops everything after it, and what was on the screen stays there.
-/

namespace ZeroCurve

/-- The screen and the files; `refused` is the path that could not be written. -/
structure Console where
  output : Text := []
  files : List (Text × Text) := []
  refused : Option Text := none
deriving DecidableEq, Repr

namespace Console

/-- The console after an event, when `accepts` says which paths can be written and `time` is how
long a turn has taken. -/
def perform (accepts : Text → Bool) (time : Text) (c : Console) : Event → Console
  | .read prompt => { c with output := c.output ++ prompt }
  | .act (.print text) => { c with output := c.output ++ text ++ ['\n'] }
  | .act .printTime =>
    { c with output := c.output ++ "render time: ".toList ++ time ++ "s\n".toList }
  | .act (.save path content) =>
    if accepts path then { c with files := c.files ++ [(path, content)] }
    else { c with refused := some path }

/-- The console after events, up to the first file that cannot be written. -/
def performAll (accepts : Text → Bool) (time : Text) (c : Console) : List Event → Console
  | [] => c
  | event :: events =>
    let next := c.perform accepts time event
    if next.refused.isSome then next else next.performAll accepts time events

end Console

end ZeroCurve

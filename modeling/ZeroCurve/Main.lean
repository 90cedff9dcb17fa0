import ZeroCurve.CommandLine

/-!
# Program

The command line program on the real input, output and files. Each turn of the run is carried out
before the next line is read.
-/

namespace ZeroCurve.Program

open CommandLine

/-- A duration in seconds, to the millisecond. -/
def secondsText (nanoseconds : Nat) : Text :=
  let milliseconds := Nat.toDigits 10 ((nanoseconds + 500000) / 1000000)
  let padded := List.replicate (4 - milliseconds.length) '0' ++ milliseconds
  padded.take (padded.length - 3) ++ '.' :: padded.drop (padded.length - 3)

/-- Writes text and makes it seen. -/
def write (t : Text) : IO Unit := do
  let output ← IO.getStdout
  output.putStr (String.ofList t)
  output.flush

/-- Carries out one act of a turn that took so long. -/
def carryOut (nanoseconds : Nat) : Act → IO Unit
  | .print text => write (text ++ ['\n'])
  | .printTime => write ("render time: ".toList ++ secondsText nanoseconds ++ "s\n".toList)
  | .save path content => IO.FS.writeFile (String.ofList path) (String.ofList content)

/-- A complaint on the error output, with the exit code that goes with it. -/
def complain (code : UInt32) (t : Text) : IO UInt32 := do
  IO.eprintln (String.ofList t)
  return code

/-- The wording of a fault. -/
def faultMessage : Fault → Text
  | .picture fault => fault.message
  | .session (.view fault) => viewMessage fault
  | .session (.picture fault) => fault.message

/-- The exit code of a run. -/
def finish : Ending → IO UInt32
  | .done => return 0
  | .refused message => complain 1 message
  | .misused misuse => complain 2 (refusal misuse)
  | .failed fault => complain 1 (faultMessage fault)

/-- Carries out turns until the run is finished. -/
partial def loop (turn : Unit → Turn State Ending) : IO UInt32 := do
  let before ← IO.monoNanosNow
  let ⟨acts, next⟩ ← IO.lazyPure turn
  let after ← IO.monoNanosNow
  acts.forM (carryOut (after - before))
  match next with
  | .finish ending => finish ending
  | .ask state =>
    write (dialogue.prompt state)
    let line ← (← IO.getStdin).getLine
    if line.isEmpty then
      let (acts, ending) := dialogue.close state
      acts.forM (carryOut 0)
      finish ending
    else
      let text := line.toList
      let text := if text.getLast? = some '\n' then text.dropLast else text
      loop fun _ => dialogue.reply state text

end ZeroCurve.Program

/-- Runs the program on its command line. -/
def main (args : List String) : IO UInt32 := do
  try
    ZeroCurve.Program.loop fun _ => ZeroCurve.CommandLine.start (args.map String.toList)
  catch e =>
    ZeroCurve.Program.complain 1 (toString e).toList

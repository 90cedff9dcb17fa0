import ZeroCurve.CommandLine
import ZeroCurve.Proofs.Console.Output
import ZeroCurve.Proofs.Dialogue.Play
import ZeroCurve.Proofs.Dialogue.Simulation

/-!
# Outcomes of the command line program

What a run leaves behind for one who sees its console and its ending. A run that is not refused
opens alike in all modes, up to where it has its equation; and a session in it goes as it goes by
itself.
-/

namespace ZeroCurve.CommandLine

/-- The lines of an input. A line feed ends a line, and so does the end of the input where anything
stands before it. -/
def inputLines (input : Text) : List Text :=
  if (Text.splitLines input).getLast? = some [] then (Text.splitLines input).dropLast
  else Text.splitLines input

theorem inputLines_append_lineFeed {line : Text} (h : '\n' ∉ line) (rest : Text) :
    inputLines (line ++ '\n' :: rest) = line :: inputLines rest := by
  have hne := Text.splitLines_ne_nil rest
  rw [inputLines, Text.splitLines_append_lineFeed h, List.getLast?_cons_of_ne_nil hne,
    List.dropLast_cons_of_ne_nil hne, inputLines]
  split
  · rfl
  · rfl

/-- What a run leaves behind. There is no ending where a file that cannot be written stops it. -/
structure Outcome where
  console : Console
  ending : Option Ending

namespace Outcome

/-- What a transcript leaves behind, when `accepts` says which paths can be written and `time` is
how long a plot takes. -/
def ofTranscript (accepts : Text → Bool) (time : Text) (t : Transcript Ending) : Outcome :=
  let console := Console.ofEvents accepts time t.events
  ⟨console, if console.refused.isSome then none else some t.result⟩

/-- The outcome with a text above what is on the screen. -/
def above (text : Text) (x : Outcome) : Outcome := { x with console := x.console.above text }

theorem ofTranscript_append {accepts : Text → Bool} {time : Text} {first : List Event}
    (h : ∀ event ∈ first, event.KeepsFiles) (rest : List Event) (ending : Ending) :
    ofTranscript accepts time ⟨first ++ rest, ending⟩ =
      (ofTranscript accepts time ⟨rest, ending⟩).above (first.flatMap (Event.shown time)) := by
  simp only [ofTranscript, above, Console.ofEvents_append h, Console.refused_above]

end Outcome

/-- What a run on the words of a command line and an input leaves behind. -/
def outcome (accepts : Text → Bool) (time : Text) (words : List Text) (input : Text) : Outcome :=
  .ofTranscript accepts time (run words (inputLines input))

/-- The prompt for the equation. -/
def equationPrompt : Text := "\nEnter equation with 'x' and 'y': ".toList

/-- The acts of a run before it has its equation. -/
def banner (o : Options) : List Act := if o.interactive then [.print Session.instructions] else []

/-- What is seen of a run up to where it has its equation. -/
def opening (o : Options) : List Event :=
  (banner o).map .act ++ if o.equation.isNone then [.read equationPrompt] else []

/-- What a run writes before it asks for an equation: the instructions, if it is interactive. -/
def bannerText (o : Options) : Text := if o.interactive then Session.instructions ++ ['\n'] else []

/-- What a run without an equation writes to ask for one. -/
def promptText (o : Options) : Text := if o.equation.isNone then equationPrompt else []

theorem keepsFiles_opening (o : Options) : ∀ event ∈ opening o, event.KeepsFiles := by
  refine List.forall_mem_append.2 ⟨List.forall_mem_map.2 ?_, ?_⟩
  · rw [banner]
    split
    · exact List.forall_mem_singleton.2 (Event.keepsFiles_print _)
    · exact nofun
  · split
    · exact List.forall_mem_singleton.2 (Event.keepsFiles_read _)
    · exact nofun

theorem shown_opening (time : Text) (o : Options) :
    (opening o).flatMap (Event.shown time) = bannerText o ++ promptText o := by
  rw [opening, banner, bannerText, promptText, List.flatMap_append]
  congr 1
  · split
    · exact List.append_nil _
    · rfl
  · split
    · exact List.append_nil _
    · rfl

/-- The line that a run takes its equation from, and the lines that are left: that of the options,
or else the first of the input. -/
def equationLine? (o : Options) (lines : List Text) : Option (Text × List Text) :=
  match o.equation, lines with
  | some line, lines => some (line, lines)
  | none, line :: lines => some (line, lines)
  | none, [] => none

theorem parse_of_readWords {words : List Text} {found : List Word} {o : Options}
    (hwords : Word.classifyAll words = .ok found)
    (hread : Options.readWords {} [] found = .ok (o, [])) : Options.parse words = .ok o := by
  simp only [Options.parse, hwords, bind, Except.bind, hread]
  rfl

theorem run_of_parse {words : List Text} {o : Options} (ho : Options.parse words = .ok o)
    (lines : List Text) :
    run words lines = dialogue.run lines (if o.help then report [helpText] else optionsTurn o) := by
  rw [run, start, ho]

theorem outcome_of_parse {words : List Text} {o : Options} (ho : Options.parse words = .ok o)
    (accepts : Text → Bool) (time input : Text) :
    outcome accepts time words input = .ofTranscript accepts time (dialogue.run (inputLines input)
      (if o.help then report [helpText] else optionsTurn o)) := by
  rw [outcome, run_of_parse ho]

theorem run_finish (lines : List Text) (acts : List Act) (ending : Ending) :
    dialogue.run lines ⟨acts, .finish ending⟩ = ⟨acts.map .act, ending⟩ := by
  cases lines <;> rfl

theorem optionsTurn_refused {o : Options} (h : ¬Scalar.ofInt 0 < o.zoom) :
    optionsTurn o = .finish (.refused (viewMessage (.zoomNotPositive o.zoom))) := by
  rw [optionsTurn, View.make, dif_neg h]

theorem run_ask_nil (o : Options) (view : View Float) :
    dialogue.run [] (.ask (.equation o view)) =
      ⟨[.read equationPrompt], .refused "No equation given".toList⟩ :=
  rfl

theorem run_ask_cons (o : Options) (view : View Float) (line : Text) (lines : List Text) :
    dialogue.run (line :: lines) (.ask (.equation o view)) =
      ⟨.read equationPrompt :: (dialogue.run lines (equationTurn o view line)).events,
        (dialogue.run lines (equationTurn o view line)).result⟩ :=
  rfl

/-- With a positive zoom a run opens, and goes on with the turn on its equation. Without an equation
it is refused then. -/
theorem run_optionsTurn {o : Options} {view : View Float}
    (hview : View.make o.zoom o.xOffset o.yOffset = .ok view) (lines : List Text) :
    dialogue.run lines (optionsTurn o) =
      match equationLine? o lines with
      | some (line, left) =>
        ⟨opening o ++ (dialogue.run left (equationTurn o view line)).events,
          (dialogue.run left (equationTurn o view line)).result⟩
      | none => ⟨opening o, .refused "No equation given".toList⟩ := by
  simp only [optionsTurn, hview, Dialogue.run_after, equationLine?, opening, banner]
  cases o.equation with
  | some line => simp only [Option.isNone_some, Bool.false_eq_true, if_false, List.append_nil]
  | none =>
    simp only [Option.isNone_none, if_true]
    cases lines with
    | nil => rw [run_ask_nil]
    | cons line lines =>
      rw [run_ask_cons]
      simp only [List.append_assoc, List.singleton_append]

/-- How a session ends, as the end of a run. -/
def ofResult : Session.Result Float PictureFault → Ending
  | .ok _ => .done
  | .error fault => .failed (.session fault)

theorem matches_ofSession (t : Turn (Session.State Float) (Session.Result Float PictureFault)) :
    t.Matches (fun s s' => s' = .session s) ofResult (ofSession t) := by
  obtain ⟨acts, next⟩ := t
  cases next with
  | ask s => exact ⟨rfl, .ask rfl⟩
  | finish result =>
    refine ⟨rfl, ?_⟩
    cases result with
    | ok last => exact .finish _
    | error fault => exact .finish _

/-- A run is a session as soon as one begins: the same is seen of both. -/
theorem run_ofSession (lines : List Text)
    (t : Turn (Session.State Float) (Session.Result Float PictureFault)) :
    dialogue.run lines (ofSession t) =
      ⟨((Session.dialogue Picture.text).run lines t).events,
        ofResult ((Session.dialogue Picture.text).run lines t).result⟩ := by
  have hsimulates : (Session.dialogue Picture.text).Simulates dialogue
      (fun s s' => s' = .session s) ofResult :=
    { prompt := by rintro s _ rfl; rfl
      reply := by rintro s _ rfl line; exact matches_ofSession _
      close := by rintro s _ rfl; cases s <;> rfl }
  exact hsimulates.run_eq lines (matches_ofSession t)

end ZeroCurve.CommandLine

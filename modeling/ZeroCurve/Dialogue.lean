import ZeroCurve.Text

/-!
# Dialogues

A program that talks with its user line by line. Between two lines it takes one turn: it acts, and
then it either asks for the next line or is finished. What it does depends on its state and the line
alone, so a dialogue over a list of lines is a function of the list, by recursion on it.
-/

namespace ZeroCurve

/-- Something that is done to the outside. -/
inductive Act where
  /-- Writes a text and ends the line. -/
  | print (text : Text)
  /-- Writes how long the turn has taken. -/
  | printTime
  /-- Writes a file; if that fails, nothing more is done. -/
  | save (path content : Text)
deriving DecidableEq, Repr

/-- What comes after the acts of a turn. -/
inductive Next (σ ρ : Type) where
  | ask (state : σ)
  | finish (result : ρ)

/-- What is done between two lines. -/
structure Turn (σ ρ : Type) where
  acts : List Act
  next : Next σ ρ

namespace Turn

variable {σ τ ρ π : Type}

/-- A turn that only asks. -/
def ask (state : σ) : Turn σ ρ := ⟨[], .ask state⟩

/-- A turn that only finishes. -/
def finish (result : ρ) : Turn σ ρ := ⟨[], .finish result⟩

/-- The turn with more acts before its own. -/
def after (acts : List Act) (t : Turn σ ρ) : Turn σ ρ := ⟨acts ++ t.acts, t.next⟩

/-- The turn seen as one of a larger dialogue. -/
def map (state : σ → τ) (result : ρ → π) (t : Turn σ ρ) : Turn τ π :=
  ⟨t.acts, match t.next with
    | .ask s => .ask (state s)
    | .finish r => .finish (result r)⟩

end Turn

/-- What is seen of a dialogue. -/
inductive Event where
  /-- A line is asked for with this prompt. -/
  | read (prompt : Text)
  | act (act : Act)
deriving DecidableEq, Repr

/-- A whole dialogue: what is seen of it, and its result. -/
structure Transcript (ρ : Type) where
  events : List Event
  result : ρ

/-- The rules of a dialogue. -/
structure Dialogue (σ ρ : Type) where
  /-- The prompt with which a state asks. -/
  prompt : σ → Text
  /-- The turn on a line. -/
  reply : σ → Text → Turn σ ρ
  /-- The acts and the result when there are no more lines. -/
  close : σ → List Act × ρ

namespace Dialogue

variable {σ ρ : Type}

/-- The dialogue from a turn on, over the lines that are left. -/
def run (d : Dialogue σ ρ) : List Text → Turn σ ρ → Transcript ρ
  | _, ⟨acts, .finish result⟩ => ⟨acts.map .act, result⟩
  | [], ⟨acts, .ask s⟩ =>
    ⟨acts.map .act ++ .read (d.prompt s) :: (d.close s).1.map .act, (d.close s).2⟩
  | line :: lines, ⟨acts, .ask s⟩ =>
    let rest := d.run lines (d.reply s line)
    ⟨acts.map .act ++ .read (d.prompt s) :: rest.events, rest.result⟩

end Dialogue

end ZeroCurve

import ZeroCurve.Proofs.Dialogue.Play
import ZeroCurve.Session

/-!
# The script of a session

What the lines come to for a session is a flat list of codes and equations, cut out of the lines
once and for all: which of them count depends on the lines alone, not on what is shown. A plain
interpreter of that list writes what the session writes and ends with the same view.
-/

namespace ZeroCurve.Session

/-- What a session takes from its lines. -/
inductive Item where
  | code (c : Char)
  | equation (line : Text)
deriving DecidableEq, Repr

/-- What the next line is read as. -/
inductive Expects where
  | commands
  | equation

/-- The codes up to and including the first that asks for a new equation or for the end. -/
def taken : Text → Text
  | [] => []
  | c :: rest => if c = '7' ∨ c = '8' then [c] else c :: taken rest

/-- What the line behind these codes is read as, none if the session ends with them. -/
def awaited (cs : Text) : Option Expects :=
  if '7' ∈ cs then some .equation else if '8' ∈ cs then none else some .commands

/-- The items of the lines: of a line of commands those that are taken, and a whole line as the
equation that was asked for. -/
def script : Expects → List Text → List Item
  | _, [] => []
  | .equation, line :: lines => .equation line :: script .commands lines
  | .commands, line :: lines =>
    (taken (codes line)).map .code ++
      match awaited (taken (codes line)) with
      | some expects => script expects lines
      | none => []

variable {α ε : Type} [Scalar α] (draw : Text → View α → Except ε Text)

/-- What is written from here on and the view at the end, unless the session breaks off. -/
abbrev Outcome (α ε : Type) [Scalar α] := Except (Fault α ε) (List Text × View α)

/-- The outcome with a text written before it. -/
def Outcome.after (text : Text) (rest : Outcome α ε) : Outcome α ε :=
  rest.map fun (writes, last) => (text :: writes, last)

/-- The outcome with one picture and one menu before it. -/
def shown (equation : Text) (view : View α) (rest : Outcome α ε) : Outcome α ε :=
  match draw equation view with
  | .ok picture => (rest.after menu).after picture
  | .error fault => .error (.picture fault)

/-- The outcome of a list of items. Behind the last one the plot is shown once more, unless an
equation was asked for. -/
def perform (equation : Text) (view : View α) : List Item → Outcome α ε
  | [] => shown draw equation view (.ok ([[]], view))
  | .equation line :: rest => perform (Equation.normalize line) view rest
  | .code c :: rest =>
    shown draw equation view <|
      match view.apply [c] with
      | .error fault => .error (.view fault)
      | .ok (next, .exit) => .ok ([], next)
      | .ok (next, .newEquation) =>
        if rest = [] then .ok ([[]], next) else perform equation next rest
      | .ok (next, .redraw) => perform equation next rest
      | .ok (next, .invalid) => (perform equation next rest).after invalidNotice

/-- What a finished session has written, and its last view. -/
def outcome (t : Transcript (Result α ε)) : Outcome α ε := t.result.map fun last => (t.writes, last)

theorem ofCode?_newEquation {c : Char} (h : View.Command.ofCode? [c] = some .newEquation) :
    c = '7' := by
  unfold View.Command.ofCode? at h
  split at h <;> simp_all

theorem ofCode?_exit {c : Char} (h : View.Command.ofCode? [c] = some .exit) : c = '8' := by
  unfold View.Command.ofCode? at h
  split at h <;> simp_all

/-- What a code does to a view: two codes end their line, and no other does. -/
theorem apply_code_cases (v : View α) (c : Char) :
    (c = '7' ∧ v.apply [c] = .ok (View.default, .newEquation)) ∨
      (c = '8' ∧ v.apply [c] = .ok (v, .exit)) ∨
      ((c ≠ '7' ∧ c ≠ '8') ∧ ((∃ fault, v.apply [c] = .error fault) ∨
        (∃ next, v.apply [c] = .ok (next, .redraw)) ∨ v.apply [c] = .ok (v, .invalid))) := by
  by_cases h7 : c = '7'
  · subst h7
    exact .inl ⟨rfl, rfl⟩
  by_cases h8 : c = '8'
  · subst h8
    exact .inr (.inl ⟨rfl, rfl⟩)
  refine .inr (.inr ⟨⟨h7, h8⟩, ?_⟩)
  unfold View.apply
  cases hcode : View.Command.ofCode? [c] with
  | none => exact .inr (.inr rfl)
  | some command =>
    cases command with
    | newEquation => exact absurd (ofCode?_newEquation hcode) h7
    | exit => exact absurd (ofCode?_exit hcode) h8
    | change m =>
      cases hmove : v.move m with
      | error fault => exact .inl ⟨fault, by simp only [hmove]; rfl⟩
      | ok next => exact .inr (.inl ⟨next, by simp only [hmove]; rfl⟩)

variable {draw}

theorem outcome_present (equation : Text) (view : View α) (lines : List Text)
    (t : Turn (State α) (Result α ε)) :
    outcome ((dialogue draw).run lines (present draw equation view t)) =
      shown draw equation view (outcome ((dialogue draw).run lines t)) := by
  unfold present shown
  cases draw equation view with
  | error fault => cases lines <;> rfl
  | ok picture =>
    simp only [Dialogue.run_after]
    generalize (dialogue draw).run lines t = rest
    obtain ⟨events, result⟩ := rest
    cases result <;> rfl

theorem outcome_notice (lines : List Text) (t : Turn (State α) (Result α ε)) :
    outcome ((dialogue draw).run lines (t.after [.print invalidNotice])) =
      (outcome ((dialogue draw).run lines t)).after invalidNotice := by
  rw [Dialogue.run_after]
  generalize (dialogue draw).run lines t = rest
  obtain ⟨events, result⟩ := rest
  cases result <;> rfl

theorem outcome_reply (line : Text) (lines : List Text) (s : State α) :
    outcome ((dialogue draw).run (line :: lines) (.ask s)) =
      outcome ((dialogue draw).run lines ((dialogue draw).reply s line)) := by
  rfl

/-- The items behind these codes. -/
def follow (cs : Text) (lines : List Text) : List Item :=
  match awaited cs with
  | some expects => script expects lines
  | none => []

theorem taken_cons_of_ne {c : Char} (h : c ≠ '7' ∧ c ≠ '8') (rest : Text) :
    taken (c :: rest) = c :: taken rest := by
  rw [taken, if_neg (not_or.2 h)]

theorem follow_cons_of_ne {c : Char} (h : c ≠ '7' ∧ c ≠ '8') (cs : Text) (lines : List Text) :
    follow (c :: cs) lines = follow cs lines := by
  have hnew : '7' ∈ c :: cs ↔ '7' ∈ cs := by simp [h.1.symm]
  have hexit : '8' ∈ c :: cs ↔ '8' ∈ cs := by simp [h.2.symm]
  simp only [follow, awaited, hnew, hexit]

variable (draw) in
/-- Whether the interpreter makes of the script of these lines what a session makes of the lines, in
both of its states. -/
structure Follows (lines : List Text) : Prop where
  commands : ∀ equation view,
    outcome ((dialogue draw).run lines (present draw equation view
      (.ask (.command equation view)))) = perform draw equation view (script .commands lines)
  equation : ∀ equation view,
    outcome ((dialogue draw).run lines (.ask (.equation view))) =
      if script .equation lines = [] then .ok ([[]], view)
      else perform draw equation view (script .equation lines)

/-- The codes of a line, once the plot has been shown, if the lines behind it are understood. -/
theorem Follows.shown_obey {lines : List Text} (h : Follows draw lines)
    (equation : Text) (view : View α) (cs : Text) :
    shown draw equation view
        (outcome ((dialogue draw).run lines (obey draw equation view cs))) =
      perform draw equation view ((taken cs).map .code ++ follow (taken cs) lines) := by
  induction cs generalizing equation view with
  | nil =>
    rw [← outcome_present]
    exact h.commands equation view
  | cons c cs ih =>
    -- after '7' and '8' neither side looks at `cs`, so only the third case needs the hypothesis
    rcases apply_code_cases view c with ⟨rfl, happly⟩ | ⟨rfl, happly⟩ | ⟨hne, hcases⟩
    · have hitems : (taken ('7' :: cs)).map .code ++ follow (taken ('7' :: cs)) lines =
          .code '7' :: script .equation lines := by rfl
      rw [hitems, obey, perform, happly]
      dsimp only
      rw [h.equation equation]
    · have hitems : (taken ('8' :: cs)).map .code ++ follow (taken ('8' :: cs)) lines =
          [.code '8'] := by rfl
      rw [hitems, obey, perform, happly]
      cases lines <;> rfl
    · rw [taken_cons_of_ne hne, follow_cons_of_ne hne, List.map_cons, List.cons_append, obey,
        perform]
      rcases hcases with ⟨fault, happly⟩ | ⟨next, happly⟩ | happly
      · rw [happly]
        cases lines <;> rfl
      · rw [happly]
        dsimp only
        rw [outcome_present, ih]
      · rw [happly]
        dsimp only
        rw [outcome_notice, outcome_present, ih]

/-- A session and the interpreter of its script: the induction is on the lines, and within a line on
its codes. -/
theorem follows (lines : List Text) : Follows draw lines := by
  induction lines with
  | nil =>
    refine ⟨fun equation view => ?_, fun equation view => rfl⟩
    rw [outcome_present]
    rfl
  | cons line lines ih =>
    refine ⟨fun equation view => ?_, fun equation view => ?_⟩
    · rw [outcome_present, outcome_reply]
      exact ih.shown_obey equation view (codes line)
    · rw [script, if_neg (List.cons_ne_nil _ _), outcome_reply]
      exact ih.commands (Equation.normalize line) view

example : script .commands ["14".toList, " ".toList, "17x".toList, " 8 ".toList, "38".toList] =
    [.code '1', .code '4', .code '1', .code '7', .equation " 8 ".toList, .code '3', .code '8'] := by
  decide

variable (draw) in
/-- Whether every picture can be drawn and every code applies to every view. -/
structure Unfailing : Prop where
  draw_ok : ∀ equation view, ∃ picture, draw equation view = .ok picture
  apply_ok : ∀ (view : View α) code, ∃ next, view.apply code = .ok next

theorem shown_ok {equation : Text} {view : View α} {rest : Outcome α ε}
    (hdraw : ∃ picture, draw equation view = .ok picture) (hrest : ∃ o, rest = .ok o) :
    ∃ o, shown draw equation view rest = .ok o := by
  obtain ⟨picture, hpicture⟩ := hdraw
  obtain ⟨o, rfl⟩ := hrest
  exact ⟨_, by rw [shown, hpicture]; rfl⟩

/-- The interpreter breaks off only where a picture or a view does. -/
theorem Unfailing.perform_ok (h : Unfailing draw) (items : List Item) (equation : Text)
    (view : View α) :
    ∃ o, perform draw equation view items = .ok o := by
  induction items generalizing equation view with
  | nil => exact shown_ok (h.draw_ok equation view) ⟨_, rfl⟩
  | cons item rest ih =>
    cases item with
    | equation line => exact ih (Equation.normalize line) view
    | code c =>
      obtain ⟨⟨next, action⟩, hnext⟩ := h.apply_ok view [c]
      refine shown_ok (h.draw_ok equation view) ?_
      rw [hnext]
      cases action with
      | redraw => exact ih equation next
      | exit => exact ⟨_, rfl⟩
      | invalid =>
        obtain ⟨o, ho⟩ := ih equation next
        dsimp only
        rw [ho]
        exact ⟨_, rfl⟩
      | newEquation =>
        dsimp only
        split
        · exact ⟨_, rfl⟩
        · exact ih equation next

end ZeroCurve.Session

import ZeroCurve.Console

/-!
# What events leave on a console

Most events only write on the screen, and what they write stands before what comes behind them,
whatever that is. Only a saved file changes the files, and only it can stop what follows.
-/

namespace ZeroCurve

/-- What an event writes on the screen. -/
def Event.shown (time : Text) : Event → Text
  | .read prompt => prompt
  | .act (.print text) => text ++ ['\n']
  | .act .printTime => "render time: ".toList ++ time ++ "s\n".toList
  | .act (.save _ _) => []

/-- Whether an event leaves the files alone. -/
def Event.KeepsFiles (event : Event) : Prop := ∀ path content, event ≠ .act (.save path content)

theorem Event.keepsFiles_read (prompt : Text) : (Event.read prompt).KeepsFiles := nofun

theorem Event.keepsFiles_print (text : Text) : (Event.act (.print text)).KeepsFiles := nofun

theorem Event.keepsFiles_printTime : (Event.act .printTime).KeepsFiles := nofun

namespace Console

variable {accepts : Text → Bool} {time : Text} {c : Console}

/-- The console after events, from an empty one on. -/
def ofEvents (accepts : Text → Bool) (time : Text) (events : List Event) : Console :=
  ({} : Console).performAll accepts time events

/-- The console with a text above what is on its screen. -/
def above (text : Text) (c : Console) : Console := { c with output := text ++ c.output }

@[simp] theorem refused_above (text : Text) (c : Console) : (c.above text).refused = c.refused := rfl

theorem above_above (text more : Text) (c : Console) :
    (c.above more).above text = c.above (text ++ more) := by
  simp [above]

/-- What an event does has nothing to do with what is on the screen already. -/
theorem perform_above (text : Text) (c : Console) (event : Event) :
    (c.above text).perform accepts time event = (c.perform accepts time event).above text := by
  cases event with
  | read prompt => simp [perform, above]
  | act act =>
    cases act with
    | print line => simp [perform, above]
    | printTime => simp [perform, above]
    | save path content =>
      by_cases h : accepts path
      · simp [perform, above, h]
      · simp [perform, above, h]

theorem performAll_above (text : Text) (c : Console) (events : List Event) :
    (c.above text).performAll accepts time events =
      (c.performAll accepts time events).above text := by
  induction events generalizing c with
  | nil => rfl
  | cons event events ih =>
    simp only [performAll, perform_above, refused_above]
    by_cases h : (c.perform accepts time event).refused.isSome
    · rw [if_pos h, if_pos h]
    · rw [if_neg h, if_neg h]
      exact ih _

theorem above_empty (text : Text) : ({} : Console).above text = ⟨text, [], none⟩ := by
  simp [above]

theorem perform_of_keepsFiles {event : Event} (h : event.KeepsFiles) :
    ({} : Console).perform accepts time event = ({} : Console).above (event.shown time) := by
  rw [above_empty]
  cases event with
  | read prompt => rfl
  | act act =>
    cases act with
    | print text => rfl
    | printTime => rfl
    | save path content => exact absurd rfl (h path content)

/-- Events that leave the files alone only put their texts above what the others leave. -/
theorem ofEvents_append {first : List Event} (h : ∀ event ∈ first, event.KeepsFiles)
    (rest : List Event) :
    ofEvents accepts time (first ++ rest) =
      (ofEvents accepts time rest).above (first.flatMap (Event.shown time)) := by
  induction first with
  | nil => rfl
  | cons event first ih =>
    simp only [List.forall_mem_cons] at h
    rw [List.cons_append, List.flatMap_cons, ← above_above, ← ih h.2, ofEvents, performAll,
      perform_of_keepsFiles h.1]
    exact performAll_above _ _ _

theorem ofEvents_of_keepsFiles {events : List Event} (h : ∀ event ∈ events, event.KeepsFiles) :
    ofEvents accepts time events = ⟨events.flatMap (Event.shown time), [], none⟩ := by
  have happend : ofEvents accepts time (events ++ []) = _ := ofEvents_append h []
  rw [List.append_nil] at happend
  simpa [ofEvents, performAll, above] using happend

/-- A file that can be written is there afterwards, and the run goes on. -/
theorem ofEvents_save {path : Text} (h : accepts path = true) (content text : Text) :
    ofEvents accepts time [.act (.save path content), .act (.print text)] =
      ⟨text ++ ['\n'], [(path, content)], none⟩ := by
  simp [ofEvents, performAll, perform, h]

/-- A file that cannot be written stops everything behind it. -/
theorem ofEvents_save_refused {path : Text} (h : accepts path = false) (content : Text)
    (rest : List Event) :
    ofEvents accepts time (.act (.save path content) :: rest) = ⟨[], [], some path⟩ := by
  simp [ofEvents, performAll, perform, h]

end Console

end ZeroCurve

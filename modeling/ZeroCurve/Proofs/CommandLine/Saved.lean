import ZeroCurve.Proofs.CommandLine.Outcome
import ZeroCurve.Proofs.Picture.Drawn

/-!
# What a run saves

A run writes a file only where it plots its equation once and is told a path, and what it writes
there is the picture that it has just shown. Sessions and reports leave the files alone.
-/

namespace ZeroCurve

namespace Session

variable {α ε : Type} [Scalar α] {draw : Text → View α → Except ε Text}

/-- Whether a turn does nothing but write on the screen. -/
def Prints (t : Turn (State α) (Result α ε)) : Prop :=
  ∀ act ∈ t.acts, (Event.act act).KeepsFiles

theorem Prints.after {t : Turn (State α) (Result α ε)} (h : Prints t) {acts : List Act}
    (hacts : ∀ act ∈ acts, (Event.act act).KeepsFiles) : Prints (t.after acts) :=
  List.forall_mem_append.2 ⟨hacts, h⟩

theorem prints_present (equation : Text) (view : View α) {next : Turn (State α) (Result α ε)}
    (h : Prints next) : Prints (present draw equation view next) := by
  rw [present]
  split
  · refine h.after ?_
    simp only [List.forall_mem_cons]
    exact ⟨Event.keepsFiles_print _, Event.keepsFiles_print _, nofun⟩
  · exact nofun

theorem prints_obey (equation : Text) (view : View α) (codes : Text) :
    Prints (obey draw equation view codes) := by
  induction codes generalizing view with
  | nil => exact nofun
  | cons code rest ih =>
    rw [obey]
    split
    · exact nofun
    · exact nofun
    · exact nofun
    · exact prints_present _ _ (ih _)
    · refine (prints_present _ _ (ih _)).after ?_
      simp only [List.forall_mem_cons]
      exact ⟨Event.keepsFiles_print _, nofun⟩

theorem keepsFiles_run (lines : List Text) {t : Turn (State α) (Result α ε)} (h : Prints t) :
    ∀ event ∈ ((dialogue draw).run lines t).events, event.KeepsFiles := by
  refine (dialogue draw).forall_mem_run (fun s => Event.keepsFiles_read _) (fun s line => ?_)
    (fun s => ?_) lines h
  · cases s with
    | command equation view => exact prints_obey equation view _
    | equation view => exact prints_present _ _ nofun
  · cases s with
    | command equation view | equation view =>
      exact List.forall_mem_singleton.2 (Event.keepsFiles_print _)

end Session

namespace CommandLine

/-- Whether a run with these options saves the picture of its equation under a path. -/
structure Options.Saves (o : Options) (path : Text) : Prop where
  out : o.out = some path
  showTokens : o.showTokens = false
  probe : o.probe = none
  interactive : o.interactive = false

variable {words : List Text} {o : Options} {path : Text}

/-- What is seen of a plot before its picture is saved. -/
def plotted (o : Options) (picture : Text) : List Event :=
  (if o.timing then [.act .printTime] else []) ++ [.act (.print picture)]

/-- What is seen of a picture that is saved. -/
def saving (o : Options) (picture : Text) : List Event :=
  match o.out with
  | none => []
  | some path =>
    [.act (.save path (picture ++ ['\n'])), .act (.print ("saved: ".toList ++ path))]

/-- What a run writes about its time. -/
def timeText (o : Options) (time : Text) : Text :=
  if o.timing then "render time: ".toList ++ time ++ "s\n".toList else []

theorem keepsFiles_plotted (o : Options) (picture : Text) :
    ∀ event ∈ plotted o picture, event.KeepsFiles := by
  refine List.forall_mem_append.2 ⟨?_, List.forall_mem_singleton.2 (Event.keepsFiles_print _)⟩
  split
  · exact List.forall_mem_singleton.2 Event.keepsFiles_printTime
  · exact nofun

theorem shown_plotted (time : Text) (o : Options) (picture : Text) :
    (plotted o picture).flatMap (Event.shown time) = timeText o time ++ (picture ++ ['\n']) := by
  rw [plotted, timeText, List.flatMap_append, List.flatMap_singleton]
  congr 1
  split
  · exact List.flatMap_singleton _ _
  · rfl

theorem run_plotTurn {equation picture : Text} {view : View Float}
    (hpicture : Picture.text equation view = .ok picture) (lines : List Text) :
    dialogue.run lines (plotTurn o equation view) =
      ⟨plotted o picture ++ saving o picture, .done⟩ := by
  have hturn : plotTurn o equation view = ⟨pictureActs o picture, .finish .done⟩ := by
    -- Rewriting with the equation of `plotTurn` is slow: to get it, the picture is unfolded too.
    delta plotTurn
    rw [hpicture]
  rw [hturn, run_finish, pictureActs, plotted, saving, List.map_append, List.map_cons,
    List.append_assoc, List.singleton_append]
  congr 2
  · split <;> rfl
  · cases o.out <;> rfl

theorem keepsFiles_report (lines texts : List Text) :
    ∀ event ∈ (dialogue.run lines (report texts)).events, event.KeepsFiles := by
  rw [report, run_finish]
  exact List.forall_mem_map.2 (List.forall_mem_map.2 fun text _ => Event.keepsFiles_print text)

/-- A run that is not to save its picture leaves the files alone, whatever its mode is. -/
theorem keepsFiles_equationTurn (h : ∀ path, ¬o.Saves path) (view : View Float) (line : Text)
    (lines : List Text) :
    ∀ event ∈ (dialogue.run lines (equationTurn o view line)).events, event.KeepsFiles := by
  rw [equationTurn]
  split
  next => exact keepsFiles_report lines _
  next hshow =>
    split
    next => exact keepsFiles_report lines _
    next hprobe =>
      split
      next =>
        rw [run_ofSession]
        exact Session.keepsFiles_run lines (Session.prints_present _ _ nofun)
      next hinteractive =>
        have hout : o.out = none := by
          by_contra hsome
          obtain ⟨path, hpath⟩ := Option.ne_none_iff_exists'.1 hsome
          exact h path ⟨hpath, by simpa using hshow, hprobe, by simpa using hinteractive⟩
        obtain ⟨picture, hpicture⟩ := Picture.text_ok (Equation.normalize line) view
        rw [run_plotTurn hpicture, saving, hout, List.append_nil]
        exact keepsFiles_plotted o picture

theorem Options.Saves.equationTurn_eq (h : o.Saves path) (view : View Float) (line : Text) :
    equationTurn o view line = plotTurn o (Equation.normalize line) view := by
  rw [equationTurn, h.showTokens, h.probe, h.interactive]
  rfl

/-- What a run that saves its picture shows before it does: the prompt if it asks for its equation,
its time if that is asked for, and the picture. -/
def shownText (o : Options) (time picture : Text) : Text :=
  promptText o ++ timeText o time ++ picture ++ ['\n']

/-- What a run that saves a picture leaves behind. The picture is shown, and then the file holds just
this picture and the run says so. If the path cannot be written, the run is stopped there. -/
def savedOutcome (accepts : Text → Bool) (o : Options) (time path picture : Text) : Outcome :=
  if accepts path then
    ⟨⟨shownText o time picture ++ "saved: ".toList ++ path ++ ['\n'],
      [(path, picture ++ ['\n'])], none⟩, some .done⟩
  else ⟨⟨shownText o time picture, [], some path⟩, none⟩

theorem files_savedOutcome_ne_nil_iff (accepts : Text → Bool) (o : Options)
    (time path picture : Text) :
    (savedOutcome accepts o time path picture).console.files ≠ [] ↔ accepts path = true := by
  rw [savedOutcome]
  split
  next h => exact iff_of_true (List.cons_ne_nil _ _) h
  next h => exact iff_of_false (fun hfiles => hfiles rfl) h

theorem Options.Saves.ofTranscript_run (h : o.Saves path) (accepts : Text → Bool) (time : Text)
    {view : View Float} (hview : View.make o.zoom o.xOffset o.yOffset = .ok view)
    {lines left : List Text} {line picture : Text}
    (hline : equationLine? o lines = some (line, left))
    (hpicture : Picture.text (Equation.normalize line) view = .ok picture) :
    Outcome.ofTranscript accepts time (dialogue.run lines (optionsTurn o)) =
      savedOutcome accepts o time path picture := by
  have hrun : dialogue.run lines (optionsTurn o) =
      ⟨(opening o ++ plotted o picture) ++ saving o picture, .done⟩ := by
    rw [run_optionsTurn hview, hline]
    simp only [h.equationTurn_eq, run_plotTurn hpicture, List.append_assoc]
  have hfirst : ∀ event ∈ opening o ++ plotted o picture, event.KeepsFiles :=
    List.forall_mem_append.2 ⟨keepsFiles_opening o, keepsFiles_plotted o picture⟩
  have hshown : (opening o ++ plotted o picture).flatMap (Event.shown time) =
      shownText o time picture := by
    rw [List.flatMap_append, shown_opening, shown_plotted, shownText, bannerText, h.interactive]
    simp
  rw [hrun, Outcome.ofTranscript_append hfirst, hshown, saving, h.out, savedOutcome]
  cases haccepts : accepts path with
  | true =>
    simp only [Outcome.ofTranscript, Outcome.above, Console.ofEvents_save haccepts, Console.above,
      if_true, List.append_assoc]
    rfl
  | false =>
    simp only [Outcome.ofTranscript, Outcome.above, Console.ofEvents_save_refused haccepts,
      Console.above, Bool.false_eq_true, if_false, List.append_nil]
    rfl

/-- A run that has no equation, or is not to save its picture, leaves no file. -/
theorem files_ofTranscript_eq_nil (accepts : Text → Bool) (time : Text) {view : View Float}
    (hview : View.make o.zoom o.xOffset o.yOffset = .ok view) {lines : List Text}
    (h : equationLine? o lines = none ∨ ∀ path, ¬o.Saves path) :
    (Outcome.ofTranscript accepts time (dialogue.run lines (optionsTurn o))).console.files = [] := by
  have hquiet : ∀ event ∈ (dialogue.run lines (optionsTurn o)).events, event.KeepsFiles := by
    rw [run_optionsTurn hview]
    cases hline : equationLine? o lines with
    | none => exact keepsFiles_opening o
    | some found =>
      refine List.forall_mem_append.2 ⟨keepsFiles_opening o, ?_⟩
      exact keepsFiles_equationTurn (h.resolve_left (by rw [hline]; nofun)) view _ _
  rw [Outcome.ofTranscript, Console.ofEvents_of_keepsFiles hquiet]

/-- A run with a positive zoom leaves a file just if it has an equation, is to save its picture and
can write the path. -/
theorem files_ofTranscript_ne_nil_iff (accepts : Text → Bool) (time : Text) {view : View Float}
    (hview : View.make o.zoom o.xOffset o.yOffset = .ok view) (lines : List Text) :
    (Outcome.ofTranscript accepts time (dialogue.run lines (optionsTurn o))).console.files ≠ [] ↔
      (∃ line left, equationLine? o lines = some (line, left)) ∧
        ∃ path, o.Saves path ∧ accepts path = true := by
  by_cases hsaves : ∃ path, o.Saves path
  · obtain ⟨path, hpath⟩ := hsaves
    cases hline : equationLine? o lines with
    | none =>
      rw [files_ofTranscript_eq_nil accepts time hview (.inl hline)]
      exact iff_of_false (fun hfiles => hfiles rfl) nofun
    | some found =>
      obtain ⟨picture, hpicture⟩ := Picture.text_ok (Equation.normalize found.1) view
      rw [hpath.ofTranscript_run accepts time hview hline hpicture, files_savedOutcome_ne_nil_iff]
      constructor
      · exact fun h => ⟨⟨_, _, rfl⟩, path, hpath, h⟩
      · rintro ⟨-, other, hother, h⟩
        rwa [Option.some.inj (hpath.out.symm.trans hother.out)]
  · rw [not_exists] at hsaves
    rw [files_ofTranscript_eq_nil accepts time hview (.inr hsaves)]
    exact iff_of_false (fun hfiles => hfiles rfl) fun h => hsaves _ h.2.choose_spec.1

/-- With a zoom that is not positive a run is refused before it writes or reads anything. Otherwise
it leaves a file just if it has an equation, plots it once, and is told a path that can be written.
The file is the picture that the run shows, for its equation and its view, with nothing of what else
it writes. If the path cannot be written, the picture is shown all the same. -/
theorem outcome_saves_what_is_shown (ho : Options.parse words = .ok o) (accepts : Text → Bool)
    (time input : Text) :
    let x := outcome accepts time words input
    (o.help = true → x.console.files = []) ∧
    (o.help = false → ¬Scalar.ofInt 0 < o.zoom →
      run words (inputLines input) = ⟨[], .refused (viewMessage (.zoomNotPositive o.zoom))⟩) ∧
    (o.help = false → Scalar.ofInt 0 < o.zoom →
      (x.console.files ≠ [] ↔
        (∃ line left, equationLine? o (inputLines input) = some (line, left)) ∧
          ∃ path, o.Saves path ∧ accepts path = true) ∧
      ∀ path line left, o.Saves path → equationLine? o (inputLines input) = some (line, left) →
        ∃ view picture, View.make o.zoom o.xOffset o.yOffset = .ok view ∧
          Picture.text (Equation.normalize line) view = .ok picture ∧
          x = savedOutcome accepts o time path picture) := by
  intro x
  have hx : x = _ := outcome_of_parse ho accepts time input
  clear_value x
  refine ⟨fun hhelp => ?_, fun hhelp hzoom => ?_, fun hhelp hzoom => ?_⟩
  · rw [hx, hhelp, if_pos rfl, Outcome.ofTranscript,
      Console.ofEvents_of_keepsFiles (keepsFiles_report _ _)]
  · rw [run_of_parse ho, hhelp, if_neg Bool.false_ne_true, optionsTurn_refused hzoom]
    exact run_finish _ _ _
  · rw [hhelp, if_neg Bool.false_ne_true] at hx
    have hview := View.make_eq hzoom o.xOffset o.yOffset
    subst hx
    refine ⟨files_ofTranscript_ne_nil_iff accepts time hview _, fun path line left h hline => ?_⟩
    obtain ⟨picture, hpicture⟩ := Picture.text_ok (Equation.normalize line) ⟨_, _, _, hzoom⟩
    exact ⟨_, picture, hview, hpicture, h.ofTranscript_run accepts time hview hline hpicture⟩

/-- The plot of a line is saved where the path can be written, and only shown where it cannot. -/
theorem outcome_saves_what_is_shown_line :
    ∃ view picture, View.make (1 : Float) 0 0 = .ok view ∧
      Picture.text "y=x".toList view = .ok picture ∧
      ∀ accepts time,
        outcome accepts time ["--eq=y=x".toList, "--out=line.txt".toList] [] =
          if accepts "line.txt".toList then
            ⟨⟨picture ++ ['\n'] ++ "saved: ".toList ++ "line.txt".toList ++ ['\n'],
              [("line.txt".toList, picture ++ ['\n'])], none⟩, some .done⟩
          else ⟨⟨picture ++ ['\n'], [], some "line.txt".toList⟩, none⟩ := by
  have hwords : Word.classifyAll ["--eq=y=x".toList, "--out=line.txt".toList] =
      .ok [.option .equation (some "y=x".toList), .option .out (some "line.txt".toList)] := rfl
  have hparse : Options.parse ["--eq=y=x".toList, "--out=line.txt".toList] =
      .ok { equation := some "y=x".toList, out := some "line.txt".toList } := by
    refine parse_of_readWords hwords ?_
    simp only [Options.readWords, Options.setAttached, Options.setValue, Key.arity, bind, pure,
      Except.bind, Except.pure]
  have hzoom : Scalar.ofInt 0 < (1 : Float) := by decide +kernel
  have hview := View.make_eq hzoom 0 0
  have hsaves : Options.Saves { equation := some "y=x".toList, out := some "line.txt".toList }
    "line.txt".toList := ⟨rfl, rfl, rfl, rfl⟩
  obtain ⟨picture, hpicture⟩ := Picture.text_ok "y=x".toList ⟨1, 0, 0, hzoom⟩
  refine ⟨_, picture, hview, hpicture, fun accepts time => ?_⟩
  obtain ⟨-, -, hrun⟩ := outcome_saves_what_is_shown hparse accepts time []
  obtain ⟨_, shown, hmake, hshown, hx⟩ := (hrun rfl hzoom).2 _ _ _ hsaves rfl
  cases hview.symm.trans hmake
  cases hpicture.symm.trans hshown
  exact hx

end CommandLine

end ZeroCurve

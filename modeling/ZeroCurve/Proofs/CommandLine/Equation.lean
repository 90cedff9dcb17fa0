import ZeroCurve.Proofs.CommandLine.Outcome

/-!
# Where a run gets its equation

An equation in front of a command line is the one of its options where a later word gives no other,
and changes nothing else of them. So a run with an equation on its command line is the run that
reads it from the first line of the input, but for the prompt.
-/

namespace ZeroCurve.CommandLine

namespace Options

/-- The options with an equation for where they give none. -/
def orEquation (e : Text) (o : Options) : Options := { o with equation := o.equation.or (some e) }

theorem setFlag_orEquation (e : Text) (o : Options) (key : Key) :
    (o.orEquation e).setFlag key = (o.setFlag key).orEquation e := by
  cases key <;> rfl

theorem setValue_orEquation (e : Text) (o : Options) (key : Key) (value : Text) :
    (o.orEquation e).setValue key value = (o.setValue key value).map (orEquation e) := by
  cases key with
  | zoom | xOffset | yOffset => simp only [setValue]; cases number _ value <;> rfl
  | equation | out | help | interactive | showTokens | probe | timing => rfl

theorem setPair_orEquation (e : Text) (o : Options) (key : Key) (first second : Text) :
    (o.orEquation e).setPair key first second = (o.setPair key first second).map (orEquation e) := by
  simp only [setPair]
  cases number key first with
  | error misuse => rfl
  | ok x => cases number key second <;> rfl

theorem setAttached_orEquation (e : Text) (o : Options) (key : Key) (value : Text) :
    (o.orEquation e).setAttached key value = (o.setAttached key value).map (orEquation e) := by
  simp only [setAttached]
  split
  · rfl
  · exact setValue_orEquation e o key value
  · rfl

theorem readWords_flag (o : Options) (strays : List Text) {key : Key} (hkey : key ≠ .help)
    (harity : key.arity = 0) (rest : List Word) :
    readWords o strays (.option key none :: rest) = readWords (o.setFlag key) strays rest := by
  rw [readWords.eq_def]
  cases key with
  | interactive | showTokens | timing => rfl
  | help => exact absurd rfl hkey
  | equation | zoom | xOffset | yOffset | out | probe => cases harity

theorem readWords_value (o : Options) (strays : List Text) {key : Key} (harity : key.arity = 1)
    (value : Text) (rest : List Word) :
    readWords o strays (.option key none :: .value value :: rest) =
      o.setValue key value >>= fun next => readWords next strays rest := by
  rw [readWords.eq_def]
  cases key with
  | equation | zoom | xOffset | yOffset | out => rfl
  | help | interactive | showTokens | probe | timing => cases harity

theorem readWords_pair (o : Options) (strays : List Text) {key : Key} (harity : key.arity = 2)
    (first second : Text) (rest : List Word) :
    readWords o strays (.option key none :: .value first :: .value second :: rest) =
      o.setPair key first second >>= fun next => readWords next strays rest := by
  rw [readWords.eq_def]
  cases key with
  | probe => rfl
  | help | equation | zoom | xOffset | yOffset | interactive | out | showTokens | timing =>
    cases harity

/-- Reading words does not look at the equation that the options have so far: it is there still if
no word gives another. -/
theorem readWords_orEquation (e : Text) (o : Options) (strays : List Text) (words : List Word) :
    readWords (o.orEquation e) strays words =
      (readWords o strays words).map fun r => (r.1.orEquation e, r.2) := by
  induction o, strays, words using readWords.induct with
  | case1 o strays => rw [readWords, readWords]; rfl
  | case2 o strays text rest ih => rw [readWords, readWords, ih]
  | case3 o strays text rest ih => rw [readWords, readWords, ih]
  | case4 o strays text tail =>
    rw [readWords, readWords, setFlag_orEquation]
    cases checkLetters text <;> rfl
  | case5 o strays key value rest ih =>
    rw [readWords, readWords, setAttached_orEquation]
    cases o.setAttached key value with
    | error misuse => rfl
    | ok next => exact ih next
  | case6 o strays tail => rw [readWords, readWords, setFlag_orEquation]; rfl
  | case7 o strays key rest hkey harity ih =>
    have hstep := fun o' => readWords_flag o' strays hkey harity rest
    rw [hstep, hstep, setFlag_orEquation, ih]
  | case8 o strays key hkey harity value rest hone ih =>
    have hstep := fun o' => readWords_value o' strays hone value rest
    rw [hstep, hstep, setValue_orEquation]
    cases o.setValue key value with
    | error misuse => rfl
    | ok next => exact ih next
  | case9 o strays key hkey harity first second rest htwo ih =>
    have hstep := fun o' => readWords_pair o' strays htwo first second rest
    rw [hstep, hstep, setPair_orEquation]
    cases o.setPair key first second with
    | error misuse => rfl
    | ok next => exact ih next
  | case10 o strays key rest hkey harity hone htwo =>
    have hstep : ∀ o', readWords o' strays (.option key none :: rest) =
        .error (.missingValues key) := by
      intro o'
      rw [readWords, if_neg harity] <;> assumption
    rw [hstep, hstep]
    rfl

theorem ofName?_of_mem_equals {word : Text} (h : '=' ∈ word) : Key.ofName? word = none := by
  have hnames : ∀ entry ∈ Key.table, '=' ∉ entry.1 := by decide
  rw [Key.ofName?, List.find?_eq_none.2, Option.map_none]
  intro entry hentry hname
  exact hnames entry hentry (of_decide_eq_true hname ▸ h)

theorem classify_equation (e : Text) :
    Word.classify ("--eq=".toList ++ e) = .ok (.option .equation (some e)) := by
  have hword : Key.ofName? ("--eq=".toList ++ e) = none :=
    ofName?_of_mem_equals (List.mem_append_left e (by decide))
  have hnamed : Word.named? ("--eq=".toList ++ e) = some (.option .equation (some e)) := by
    rw [Word.named?, hword]
    rfl
  unfold Word.classify
  rw [hnamed]
  rfl

/-- An equation in front of a command line is that of its options, unless they have one. -/
theorem parse_cons_equation (e : Text) (words : List Text) :
    parse (("--eq=".toList ++ e) :: words) = (parse words).map (orEquation e) := by
  have hmark : "--eq=".toList ++ e ≠ "--".toList := by
    intro h
    cases h
  simp only [parse, Word.classifyAll, if_neg hmark, classify_equation]
  cases Word.classifyAll words with
  | error misuse => rfl
  | ok found =>
    have hread : readWords {} [] (.option .equation (some e) :: found) =
        (readWords {} [] found).map fun r => (r.1.orEquation e, r.2) := by
      rw [readWords]
      exact readWords_orEquation e {} [] found
    simp only [pure, Except.pure, bind, Except.bind] at hread ⊢
    rw [hread]
    cases readWords {} [] found with
    | error misuse => rfl
    | ok r =>
      by_cases hstrays : r.2 = []
      · simp only [Except.map, hstrays, if_true]
      · simp only [Except.map, hstrays, if_false]

end Options

variable {words : List Text} {o : Options} {e : Text}

/-- With a positive zoom, what is left of a run behind its opening is the same whether the options
give the equation or the first line of the input does. -/
theorem run_optionsTurn_orEquation (hzoom : Scalar.ofInt 0 < o.zoom) (hnone : o.equation = none)
    (e : Text) (lines : List Text) :
    ∃ events ending,
      dialogue.run lines (optionsTurn (o.orEquation e)) =
        ⟨opening (o.orEquation e) ++ events, ending⟩ ∧
      dialogue.run (e :: lines) (optionsTurn o) = ⟨opening o ++ events, ending⟩ := by
  have hview := View.make_eq hzoom o.xOffset o.yOffset
  have hequation : (o.orEquation e).equation = some e := by rw [Options.orEquation, hnone]; rfl
  have hgiven := run_optionsTurn (o := o.orEquation e) hview lines
  have hasked := run_optionsTurn hview (e :: lines)
  simp only [equationLine?, hequation] at hgiven
  simp only [equationLine?, hnone] at hasked
  exact ⟨_, _, hgiven, hasked⟩

/-- A run that reads its equation from the first line of the input comes out as the run with that
equation in front of its command line: it ends alike, with the same message, and leaves the same
files. The same is written too, but that the prompt comes between what stands before the plot and
the rest of it, unless the run is over before it asks. -/
theorem outcome_equation_from_input (ho : Options.parse words = .ok o) (hnone : o.equation = none)
    (he : '\n' ∉ e) (accepts : Text → Bool) (time rest : Text) :
    let given := outcome accepts time (("--eq=".toList ++ e) :: words) rest
    let asked := outcome accepts time words (e ++ '\n' :: rest)
    asked.ending = given.ending ∧
    asked.console.files = given.console.files ∧
    asked.console.refused = given.console.refused ∧
    (o.help = false → Scalar.ofInt 0 < o.zoom →
      ∃ behind, given.console.output = bannerText o ++ behind ∧
        asked.console.output = bannerText o ++ equationPrompt ++ behind) ∧
    (o.help = true ∨ ¬Scalar.ofInt 0 < o.zoom → asked.console.output = given.console.output) := by
  intro given asked
  have hparse : Options.parse (("--eq=".toList ++ e) :: words) = .ok (o.orEquation e) := by
    rw [Options.parse_cons_equation, ho]
    rfl
  have hgiven : given = _ := outcome_of_parse hparse accepts time rest
  have hasked : asked = _ := outcome_of_parse ho accepts time (e ++ '\n' :: rest)
  rw [inputLines_append_lineFeed he] at hasked
  rw [show (o.orEquation e).help = o.help from rfl] at hgiven
  clear_value given asked
  cases hhelp : o.help with
  | true =>
    rw [hhelp, if_pos rfl, report, run_finish] at hgiven hasked
    rw [hasked, ← hgiven]
    exact ⟨rfl, rfl, rfl, fun h => absurd h.symm Bool.false_ne_true, fun _ => rfl⟩
  | false =>
    rw [hhelp, if_neg Bool.false_ne_true] at hgiven hasked
    by_cases hzoom : Scalar.ofInt 0 < o.zoom
    · obtain ⟨events, ending, hrun, hrun'⟩ :=
        run_optionsTurn_orEquation hzoom hnone e (inputLines rest)
      rw [hrun, Outcome.ofTranscript_append (keepsFiles_opening _), shown_opening] at hgiven
      rw [hrun', Outcome.ofTranscript_append (keepsFiles_opening _), shown_opening] at hasked
      rw [hgiven, hasked]
      have hprompt : promptText o = equationPrompt := by rw [promptText, hnone]; rfl
      have hnoPrompt : promptText (o.orEquation e) = [] := by
        rw [promptText, Options.orEquation, hnone]; rfl
      rw [hprompt, hnoPrompt, List.append_nil]
      exact ⟨rfl, rfl, rfl, fun _ _ => ⟨_, rfl, rfl⟩,
        fun h => absurd hzoom (h.resolve_left Bool.false_ne_true)⟩
    · rw [optionsTurn_refused (o := o.orEquation e) hzoom, Turn.finish, run_finish] at hgiven
      rw [optionsTurn_refused hzoom, Turn.finish, run_finish] at hasked
      rw [hasked, hgiven]
      exact ⟨rfl, rfl, rfl, fun _ h => absurd h hzoom, fun _ => rfl⟩

/-- A session that is asked for its equation has instructions, prompt and menu in this order. -/
theorem outcome_equation_from_input_session :
    Options.parse ["--interactive".toList] = .ok { interactive := true } ∧
    ∀ accepts time,
      let given := outcome accepts time ["--eq=y=x".toList, "--interactive".toList] "8".toList
      let asked := outcome accepts time ["--interactive".toList] "y=x\n8".toList
      asked.ending = given.ending ∧
      ∃ behind, given.console.output = Session.instructions ++ ['\n'] ++ behind ∧
        asked.console.output = Session.instructions ++ ['\n'] ++ equationPrompt ++ behind := by
  have hwords : Word.classifyAll ["--interactive".toList] = .ok [.option .interactive none] := rfl
  have hkey : Key.interactive ≠ .help := nofun
  have hparse : Options.parse ["--interactive".toList] = .ok { interactive := true } := by
    refine parse_of_readWords hwords ?_
    rw [Options.readWords_flag _ _ hkey rfl, Options.readWords]
    rfl
  refine ⟨hparse, fun accepts time => ?_⟩
  obtain ⟨hending, -, -, houtput, -⟩ := outcome_equation_from_input (e := "y=x".toList) hparse rfl
    (by decide) accepts time "8".toList
  exact ⟨hending, houtput rfl (by decide +kernel)⟩

end ZeroCurve.CommandLine

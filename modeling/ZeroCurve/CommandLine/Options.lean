import ZeroCurve.Numeral.Literal
import ZeroCurve.Text.Quoted

/-!
# Command line options

The words of a command line are first told apart (an option by its name, by a part of its name that
fits no other, or with its value behind an equals sign; a value; anything unknown), then read from
left to right. A word behind `--` is never an option. The first fault of the first pass comes before
any of the second, and words that nothing takes are complained of last.
-/

namespace ZeroCurve.CommandLine

/-- The options. -/
inductive Key where
  | help
  | equation
  | zoom
  | xOffset
  | yOffset
  | interactive
  | out
  | showTokens
  | probe
  | timing
deriving DecidableEq, Repr

namespace Key

/-- All options, in the order in which messages list them. -/
def all : List Key :=
  [.help, .equation, .zoom, .xOffset, .yOffset, .interactive, .out, .showTokens, .probe, .timing]

/-- The names of an option. -/
def names : Key → List Text
  | .help => ["-h".toList, "--help".toList]
  | .equation => ["--eq".toList]
  | .zoom => ["--zoom".toList]
  | .xOffset => ["--xoff".toList]
  | .yOffset => ["--yoff".toList]
  | .interactive => ["--interactive".toList]
  | .out => ["--out".toList]
  | .showTokens => ["--show-tokens".toList]
  | .probe => ["--probe".toList]
  | .timing => ["--timing".toList]

/-- How many values an option takes. -/
def arity : Key → Nat
  | .help | .interactive | .showTokens | .timing => 0
  | .equation | .zoom | .xOffset | .yOffset | .out => 1
  | .probe => 2

/-- The option as messages call it. -/
def title (k : Key) : Text := Text.joinWith ['/'] k.names

/-- All names with their options. -/
def table : List (Text × Key) := all.flatMap fun k => k.names.map (·, k)

/-- The option of a name. -/
def ofName? (name : Text) : Option Key := (table.find? (·.1 = name)).map (·.2)

end Key

/-- What is wrong with a command line. -/
inductive Misuse where
  | ambiguous (word : Text) (names : List Text)
  | missingValues (key : Key)
  | ignoredValue (key : Key) (value : Text)
  | invalidNumber (key : Key) (value : Text)
  | unrecognized (words : List Text)
deriving DecidableEq, Repr

namespace Misuse

/-- How many values were expected. -/
def expected : Nat → Text
  | 1 => "expected one argument".toList
  | n => "expected ".toList ++ Nat.toDigits 10 n ++ " arguments".toList

/-- A complaint about an option. -/
def about (key : Key) (complaint : Text) : Text :=
  "argument ".toList ++ key.title ++ ": ".toList ++ complaint

/-- The wording of the complaint. -/
def message : Misuse → Text
  | .ambiguous word names =>
    "ambiguous option: ".toList ++ word ++ " could match ".toList ++ Text.joinWith ", ".toList names
  | .missingValues key => about key (expected key.arity)
  | .ignoredValue key value => about key ("ignored explicit argument ".toList ++ Text.quoted value)
  | .invalidNumber key value => about key ("invalid float value: ".toList ++ Text.quoted value)
  | .unrecognized words => "unrecognized arguments: ".toList ++ Text.joinWith [' '] words

end Misuse

/-- A word of the command line. -/
inductive Word where
  /-- A word that may be the value of an option. -/
  | value (text : Text)
  /-- An option, perhaps with a value attached to it. -/
  | option (key : Key) (attached : Option Text)
  /-- The letters behind `-h`. -/
  | letters (text : Text)
  /-- A word that looks like an option and is none, or the mark behind which there are no options.
  -/
  | stray (text : Text)
deriving DecidableEq, Repr

namespace Word

/-- The part before the first equals sign and the part behind it. -/
def splitValue (word : Text) : Text × Option Text :=
  match word.dropWhile (· ≠ '=') with
  | [] => (word, none)
  | _ :: attached => (word.takeWhile (· ≠ '='), some attached)

/-- Whether digits, perhaps with a point among them or before them, make up a text; a line feed may
end it. -/
def isNumeral (t : Text) : Bool :=
  let t := if t.getLast? = some '\n' then t.dropLast else t
  let whole := t.takeWhile Text.isDigit
  match t.dropWhile Text.isDigit with
  | [] => whole ≠ []
  | '.' :: fraction => fraction ≠ [] && fraction.all Text.isDigit
  | _ => false

/-- Whether a word is a negative number. No option is named like one, so it is a value. -/
def isNegativeNumber : Text → Bool
  | '-' :: rest => isNumeral rest
  | _ => false

/-- The option that a word names in full, by itself or before an equals sign. -/
def named? (word : Text) : Option Word :=
  match Key.ofName? word with
  | some key => some (.option key none)
  | none =>
    match splitValue word with
    | (name, some attached) => (Key.ofName? name).map fun key => .option key (some attached)
    | (_, none) => none

/-- What a word is that begins with a hyphen and means no option: a value if it is a negative number
or has a blank in it. -/
def unnamed (word : Text) : Word :=
  if isNegativeNumber word || ' ' ∈ word then .value word else .stray word

/-- What a word is that begins with two hyphens and names no option in full: the option whose name
begins with it, if there is just one. -/
def abbreviated (word : Text) : Except Misuse Word :=
  let (start, attached) := splitValue word
  match Key.table.filter fun entry => start.isPrefixOf entry.1 with
  | [] => .ok (unnamed word)
  | [(_, key)] => .ok (.option key attached)
  | several => .error (.ambiguous word (several.map (·.1)))

/-- What a word is. -/
def classify (word : Text) : Except Misuse Word :=
  match word with
  | '-' :: c :: rest =>
    match named? word with
    | some found => .ok found
    | none =>
      if c = '-' then abbreviated word
      else if c = 'h' then .ok (.letters rest)
      else .ok (unnamed word)
  | _ => .ok (.value word)

/-- What the words of a command line are. -/
def classifyAll : List Text → Except Misuse (List Word)
  | [] => .ok []
  | word :: words =>
    if word = "--".toList then .ok (.stray word :: words.map .value)
    else do return (← classify word) :: (← classifyAll words)

end Word

/-- What a command line asks for. -/
structure Options where
  equation : Option Text := none
  zoom : Float := 1
  xOffset : Float := 0
  yOffset : Float := 0
  interactive : Bool := false
  out : Option Text := none
  showTokens : Bool := false
  probe : Option (Float × Float) := none
  timing : Bool := false
  help : Bool := false

namespace Options

/-- The number that a value writes. -/
def number (key : Key) (value : Text) : Except Misuse Float :=
  match Numeral.Literal.read? value with
  | some v => .ok v
  | none => .error (.invalidNumber key value)

/-- The options with one that takes no value. -/
def setFlag (o : Options) : Key → Options
  | .help => { o with help := true }
  | .interactive => { o with interactive := true }
  | .showTokens => { o with showTokens := true }
  | .timing => { o with timing := true }
  | _ => o

/-- The options with one that takes one value. -/
def setValue (o : Options) (key : Key) (value : Text) : Except Misuse Options :=
  match key with
  | .equation => return { o with equation := some value }
  | .out => return { o with out := some value }
  | .zoom => return { o with zoom := ← number key value }
  | .xOffset => return { o with xOffset := ← number key value }
  | .yOffset => return { o with yOffset := ← number key value }
  | _ => return o

/-- The options with the point to probe. -/
def setPair (o : Options) (key : Key) (first second : Text) : Except Misuse Options := do
  let x ← number key first
  let y ← number key second
  return { o with probe := some (x, y) }

/-- The options with one that has its value attached. -/
def setAttached (o : Options) (key : Key) (value : Text) : Except Misuse Options :=
  match key.arity with
  | 0 => .error (.ignoredValue key value)
  | 1 => o.setValue key value
  | _ => .error (.missingValues key)

/-- Whether letters behind `-h` may stand there: neither a hyphen nor an equals sign may be next to
a letter `h`. Asking for help ends the reading, so any other letter is passed over. -/
def checkLetters : Text → Except Misuse Unit
  | 'h' :: '=' :: value => .error (.ignoredValue .help value)
  | 'h' :: rest => checkLetters rest
  | '-' :: rest => .error (.ignoredValue .help ('-' :: rest))
  | _ => .ok ()

/-- The options that words ask for, and the words that nothing takes. -/
def readWords (o : Options) (strays : List Text) : List Word → Except Misuse (Options × List Text)
  | [] => .ok (o, strays)
  | .value text :: rest => readWords o (strays ++ [text]) rest
  | .stray text :: rest => readWords o (strays ++ [text]) rest
  | .letters text :: _ => do
    checkLetters text
    return (o.setFlag .help, [])
  | .option key (some value) :: rest => do readWords (← o.setAttached key value) strays rest
  | .option .help none :: _ => .ok (o.setFlag .help, [])
  | .option key none :: rest =>
    if key.arity = 0 then readWords (o.setFlag key) strays rest
    else
      match key.arity, rest with
      | 1, .value value :: rest => do readWords (← o.setValue key value) strays rest
      | 2, .value first :: .value second :: rest => do
        readWords (← o.setPair key first second) strays rest
      | _, _ => .error (.missingValues key)
termination_by words => words.length

/-- The options of a command line. -/
def parse (words : List Text) : Except Misuse Options := do
  let (o, strays) ← readWords {} [] (← Word.classifyAll words)
  if strays = [] then return o else .error (.unrecognized strays)

end Options

end ZeroCurve.CommandLine

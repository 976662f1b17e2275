import Snippet.Calendar.Date

/-!
# Arguments

The arguments of the command line: options, and the text to transform. Options may stand anywhere
before a double dash; whatever follows this is text. An option is given at most once.
-/

namespace Snippet

/-- The arguments of a call. -/
structure Arguments where
  /-- The words of the text; it is read from the input if there are none. -/
  words : List Text := []
  /-- The path of the configuration file. -/
  config : Option Text := none
  /-- Whether the full result is printed as JSON. -/
  json : Bool := false
  /-- Whether only the split of the text is printed. -/
  seed : Bool := false
  /-- The date that missing years are taken from. -/
  today : Option Date := none
  /-- Whether activity is logged. -/
  verbose : Bool := false

/-- What a call asks for. -/
inductive Command where
  | run (a : Arguments)
  | help
  | version
  /-- The arguments cannot be understood. -/
  | misuse

namespace Arguments

/-! ## Dates -/

/-- The number that at most `size` digits at the start of a text write, and the rest. -/
def takeNat? (size : Nat) (t : Text) : Option (Nat × Text) :=
  let digits := (t.take size).takeWhile Char.isDigit
  if digits.isEmpty then none else some (Decimal.natOf digits, t.drop digits.length)

/-- Reads a year: at most four digits, or any number of them after a sign. -/
def readYear? (t : Text) : Option (Int × Text) :=
  match t with
  | '-' :: t => (takeNat? t.length t).map fun (n, rest) => (-(n : Int), rest)
  | '+' :: t => (takeNat? t.length t).map fun (n, rest) => ((n : Int), rest)
  | _ => (takeNat? 4 t).map fun (n, rest) => ((n : Int), rest)

/-- Reads a dash and a number of at most two digits, with white space before each. -/
def readDashed? (t : Text) : Option (Nat × Text) :=
  match Text.trimStart t with
  | '-' :: rest => takeNat? 2 (Text.trimStart rest)
  | _ => none

/-- The date that a text writes as year, month and day with dashes. -/
def date? (t : Text) : Option Date := do
  let (year, rest) ← readYear? (Text.trimStart t)
  let (month, rest) ← readDashed? rest
  let (day, rest) ← readDashed? rest
  if Text.isBlank rest then Date.of? year month day else none

/-! ## Options -/

/-- An option that is present or not. -/
inductive Switch where
  | json
  | seed
  | verbose
  | help
  | version
  deriving DecidableEq, Repr

/-- An option with a value. -/
inductive Setting where
  | config
  | today
  deriving DecidableEq, Repr

/-- The switch with a long name. -/
def switchOfName? (name : Text) : Option Switch :=
  [("json", Switch.json), ("seed", .seed), ("verbose", .verbose), ("help", .help),
    ("version", .version)].lookup (String.ofList name)

/-- The switch with a letter. -/
def switchOfLetter? : Char → Option Switch
  | 'v' => some .verbose
  | 'h' => some .help
  | 'V' => some .version
  | _ => none

/-- The option with a value that has a long name. -/
def settingOfName? (name : Text) : Option Setting :=
  [("config", Setting.config), ("today", .today)].lookup (String.ofList name)

/-- Turns a switch on. The call ends when it asks for help or the version, or repeats a switch. -/
def turnOn (a : Arguments) : Switch → Except Command Arguments
  | .json => if a.json then throw .misuse else pure { a with json := true }
  | .seed => if a.seed then throw .misuse else pure { a with seed := true }
  | .verbose => if a.verbose then throw .misuse else pure { a with verbose := true }
  | .help => throw .help
  | .version => throw .version

/-- Gives an option its value. The call ends when the value cannot be read, or the option has one
already. -/
def assign (a : Arguments) (s : Setting) (value : Text) : Except Command Arguments :=
  match s with
  | .config =>
    if a.config.isSome || value.isEmpty then throw .misuse else pure { a with config := some value }
  | .today =>
    match date? value with
    | some d => if a.today.isSome then throw .misuse else pure { a with today := some d }
    | none => throw .misuse

/-- Turns on switches given by their letters. -/
def turnOnAll (a : Arguments) (letters : Text) : Except Command Arguments :=
  letters.foldlM (fun a c =>
    match switchOfLetter? c with
    | some s => turnOn a s
    | none => throw .misuse) a

/-- What an argument is. -/
inductive Shape where
  | word (t : Text)
  /-- A double dash. -/
  | separator
  /-- An option with a long name, perhaps with a value after an equals sign. -/
  | long (name : Text) (value : Option Text)
  /-- Options given by letters. -/
  | letters (t : Text)

/-- The shape of an argument. A dash alone is a word. -/
def shapeOf : Text → Shape
  | ['-', '-'] => .separator
  | '-' :: '-' :: t =>
    match t.dropWhile (· != '=') with
    | [] => .long t none
    | _ :: value => .long (t.takeWhile (· != '=')) (some value)
  | '-' :: c :: t => .letters (c :: t)
  | t => .word t

/-- Adds words of the text. -/
def addWords (a : Arguments) (ts : List Text) : Arguments := { a with words := a.words ++ ts }

/-- Reads the arguments one after the other. -/
def readAll (a : Arguments) : List Text → Except Command Arguments
  | [] => pure a
  | t :: ts =>
    match shapeOf t with
    | .separator => pure (a.addWords ts)
    | .word t => (a.addWords [t]).readAll ts
    | .letters t => do (← a.turnOnAll t).readAll ts
    | .long name value =>
      match switchOfName? name, settingOfName? name with
      | some s, _ => if value.isSome then throw .misuse else do (← a.turnOn s).readAll ts
      | none, some s =>
        match value, ts with
        | some value, ts => do (← a.assign s value).readAll ts
        | none, next :: rest =>
          match shapeOf next with
          | .word value => do (← a.assign s value).readAll rest
          | _ => throw .misuse
        | none, [] => throw .misuse
      | none, none => throw .misuse

end Arguments

/-- What a call with given arguments asks for. -/
def Command.ofArguments (arguments : List Text) : Command :=
  match Arguments.readAll {} arguments with
  | .ok a => .run a
  | .error c => c

end Snippet

import Snippet.CommandLine.Arguments
import Snippet.CommandLine.Json
import Snippet.Config.Toml
import Snippet.Pipeline

/-!
# Responses

What a call of the program prints and how it ends. The text comes from the arguments, joined by
blanks, or from the input. The result is printed with a line feed at its end, the notice of an
action on the error output.
-/

namespace Snippet

/-- What a call prints, and its exit code. -/
structure Response where
  code : Nat
  output : Text
  /-- The lines for the error output. -/
  notices : List Text
  deriving DecidableEq, Repr

namespace Response

/-- The response to a call that fails. -/
def failure (message : Text) : Response := ⟨1, [], ["Error: ".toList ++ message]⟩

/-- The response to a call whose arguments cannot be understood. -/
def misuse : Response := ⟨2, [], []⟩

/-- The response that prints lines. -/
def printing (t : Text) : Response := ⟨0, t ++ ['\n'], []⟩

end Response

namespace Output

/-- The name of what an action opens. -/
def kindName : EffectKind → Text
  | .openUrl => "open_url".toList
  | .openPath => "open_path".toList

/-- An action as JSON. -/
def effectJson (e : SideEffect) : JsonValue :=
  .object [("kind".toList, .string (kindName e.kind)), ("payload".toList, .string e.payload),
    ("message".toList, .string e.message)]

/-- A match as JSON. -/
def recordJson (r : MatchRecord) : JsonValue :=
  .object [("id".toList, .string r.id.toList), ("raw".toList, .string r.raw)]

/-- An output as JSON. -/
def toJson (o : Output) : JsonValue :=
  .object [("text".toList, .string o.text), ("changed".toList, .boolean o.changed),
    ("matched_id".toList, .ofOption (o.matchedId.map String.toList)),
    ("side_effect".toList, (o.effect.map effectJson).getD .null),
    ("matches".toList, .array (o.log.map recordJson))]

/-- What is printed for an output: its text, on a line of its own. -/
def printed (o : Output) : Text :=
  if o.text.getLast? = some '\n' then o.text else o.text ++ ['\n']

end Output

/-- A seed as JSON. -/
def Seed.toJson (s : Seed) : JsonValue :=
  .object [("prefix".toList, .string s.lead), ("seed".toList, .string s.body)]

namespace Arguments

/-- The text to transform: the words with blanks between them, or the input if there are none. There
is none when the input is no text in UTF-8. -/
def text? (a : Arguments) (input : ByteArray) : Option Text :=
  if a.words.isEmpty then (String.fromUTF8? input).map String.toList
  else some (Text.join [' '] a.words)

/-- The response to a text. -/
def respondTo (a : Arguments) (p : Pipeline) (t : Text) : Response :=
  if a.seed then
    let seed := Seed.ofText t
    .printing (if a.json then seed.toJson.toText else seed.lead ++ '\t' :: seed.body)
  else
    let out := p.process t
    if a.json then .printing out.toJson.toText
    else ⟨0, out.printed, (out.effect.map SideEffect.message).toList⟩

/-- The path of the configuration file: the one that is given, or else the one of the
environment. -/
def configPath? (a : Arguments) (environment : Option Text) : Option Text :=
  a.config.orElse fun _ => environment

/-- The configuration: that of a file with a given path and bytes, or the standard one if no file is
asked for. The error is the message for people. -/
def configuration (file : Option (Text × Option ByteArray)) : Except Text Config :=
  match file with
  | none => pure {}
  | some (path, bytes) => (Config.ofFile bytes).mapError (FileError.context path)

/-- The response to a call with given arguments, where `file` is the configuration file that it asks
for and `now` the present date. -/
def respond (a : Arguments) (file : Option (Text × Option ByteArray)) (input : ByteArray)
    (now : Date) : Response :=
  match configuration file with
  | .error message => .failure message
  | .ok config =>
    match Pipeline.standard config (a.today.getD now) with
    | .error e => .failure e.message
    | .ok p =>
      match a.text? input with
      | none => .failure "Failed to read stdin".toList
      | some t => a.respondTo p t

end Arguments

end Snippet

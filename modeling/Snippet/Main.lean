import Snippet.CommandLine.Respond
import Std.Time.Zoned

/-!
# The program

Reads the arguments, the configuration file and the input, and prints the response.
-/

namespace Snippet

/-- How the program is used. -/
def usage : List String :=
  ["Detect and transform snippets of text: arithmetic, date ranges, units, phone numbers and more",
    "",
    "Usage: snippet [OPTIONS] [TEXT]...",
    "",
    "Options:",
    "      --config <CONFIG>  TOML configuration file (defaults to $SNIPPET_CONFIG when set)",
    "      --json             Print the full result as JSON",
    "      --seed             Only show how the input splits into its lead and its seed",
    "      --today <TODAY>    Reference date (YYYY-MM-DD) for inferring missing years",
    "  -v, --verbose          Log activity to the error output",
    "  -h, --help             Print help",
    "  -V, --version          Print version"]

/-- The bytes of a file, if it can be read. -/
def readFile? (path : Text) : IO (Option ByteArray) := do
  try
    return some (← IO.FS.readBinFile (String.ofList path))
  catch _ =>
    return none

/-- The present date. -/
def currentDate : IO Date := do
  let now ← Std.Time.PlainDate.now
  let date? := Date.of? now.year.toInt now.month.toNat now.day.toNat
  return date?.getD ⟨1, 1, 1, rfl⟩

/-- Prints a response and returns its exit code. -/
def Response.print (r : Response) : IO UInt32 := do
  for line in r.notices do
    IO.eprintln (String.ofList line)
  IO.print (String.ofList r.output)
  return r.code.toUInt32

/-- Runs a call. -/
def runCommand : Command → IO UInt32
  | .help => do
    usage.forM IO.println
    return 0
  | .version => do
    IO.println "snippet 0.1.0"
    return 0
  | .misuse => do
    IO.eprintln "error: unexpected arguments; try --help"
    return 2
  | .run a => do
    let environment := (← IO.getEnv "SNIPPET_CONFIG").map String.toList
    let file ← (a.configPath? environment).mapM fun path => do return (path, ← readFile? path)
    let input ← if a.words.isEmpty then (← IO.getStdin).readBinToEnd else pure ByteArray.empty
    (a.respond file input (← currentDate)).print

end Snippet

/-- Runs the program. -/
def main (arguments : List String) : IO UInt32 :=
  Snippet.runCommand (Snippet.Command.ofArguments (arguments.map String.toList))

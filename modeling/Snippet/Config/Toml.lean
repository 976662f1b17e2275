import Snippet.Config.Basic
import Snippet.Toml.Reader

/-!
# Configuration files

A configuration is a TOML document with a table for each group of settings. Everything may be left
out, and unknown keys are passed over. In place of a table, a group may be an array of its settings
in order; a date counts as an empty table.
-/

namespace Snippet

namespace Config

/-- The setting of a group, by its key and by its place among the settings of the group. A group
that is neither a table nor an array nor a date is refused. -/
def setting? (group : Toml) (key : String) (place : Nat) : Option (Option Toml) :=
  match group with
  | .table _ entries => some (entries.lookup key.toList)
  | .array items | .tables items => some items[place]?
  | .date => some none
  | _ => none

/-- Reads a setting of a group with `read`, where it is set; a group that is missing has no
settings. -/
def readSetting {α : Type} (doc : Toml) (group key : String) (place : Nat) (read : Toml → Option α)
    (default : α) : Option α := do
  match doc.entry? group.toList with
  | none => return default
  | some g =>
    match ← setting? g key place with
    | none => return default
    | some v => read v

/-- A string. -/
def string? : Toml → Option Text
  | .string t => some t
  | _ => none

/-- A truth value. -/
def boolean? : Toml → Option Bool
  | .boolean b => some b
  | _ => none

/-- A natural number. -/
def natural? : Toml → Option Nat
  | .integer n => if 0 ≤ n then some n.toNat else none
  | _ => none

/-- A number, an integer being read as the nearest float. -/
def number? : Toml → Option Float
  | .float x => some x
  | .integer n => some (Float.ofInt n)
  | _ => none

/-- A list of strings. -/
def strings? : Toml → Option (List String)
  | .array items => items.mapM fun v => (string? v).map String.ofList
  | _ => none

/-- The configuration that a document states. -/
def ofDocument? (doc : Toml) : Option Config := do
  let template ← readSetting doc "arithmetic" "template" 0 (fun v => (string? v).map some) none
  let weeklyRate ← readSetting doc "rating" "weekly_rate" 0 number? ({} : Config).weeklyRate
  let precision ← readSetting doc "units" "precision" 0 natural? ({} : Config).precision
  let navigationEnabled ←
    readSetting doc "navigation" "enabled" 0 boolean? ({} : Config).navigationEnabled
  let searchUrl ← readSetting doc "navigation" "search_url" 1 string? ({} : Config).searchUrl
  let maxSearchLength ←
    readSetting doc "navigation" "max_search_length" 2 natural? ({} : Config).maxSearchLength
  let disabled ← readSetting doc "detectors" "disabled" 0 strings? ({} : Config).disabled
  return {
    template, weeklyRate, precision, navigationEnabled, searchUrl, maxSearchLength, disabled }

end Config

/-- Why a text is no usable configuration. -/
inductive SourceError where
  /-- It is no document with settings of the right types. -/
  | unreadable
  | invalid (e : ConfigError)

/-- The text of an error. -/
def SourceError.message : SourceError → Text
  | .unreadable => "Failed to parse configuration".toList
  | .invalid e => e.message

/-- The configuration that a text states, if it is valid. -/
def Config.ofText (t : Text) : Except SourceError Config :=
  match (Toml.ofText? t).bind Config.ofDocument? with
  | none => throw .unreadable
  | some c => do
    c.validate.mapError .invalid
    return c

/-- Why a file has no usable configuration. -/
inductive FileError where
  /-- It is missing, or it is no text in UTF-8. -/
  | missing
  | invalid (e : SourceError)

/-- What an error says of a file with a given path. -/
def FileError.context (path : Text) : FileError → Text
  | .missing => "Failed to read config file: ".toList ++ path
  | .invalid _ => "Invalid config file: ".toList ++ path

/-- The configuration in a file with given bytes, if there is such a file. -/
def Config.ofFile (bytes : Option ByteArray) : Except FileError Config :=
  match bytes.bind String.fromUTF8? with
  | none => throw .missing
  | some s => (Config.ofText s.toList).mapError .invalid

end Snippet

import Snippet.Calendar.Date
import Snippet.Config.Basic

/-!
# Formatters

A formatter turns texts of one kind into their replacement. Formatters are kept in a registry
under their names; the standard detectors for arithmetic and date ranges use the ones that are
stored there.
-/

namespace Snippet

/-- What a formatter may depend on besides the text. -/
structure Settings where
  config : Config
  /-- The date that missing years are taken from. -/
  today : Date

/-- A test for the texts that a formatter is for, and their replacement. -/
structure Formatter where
  name : String
  isCandidate : Settings → Text → Bool
  process : Settings → Text → Option Text

/-- Why a registration is refused. -/
inductive RegistryError where
  | emptyId
  | duplicateId (id : String)
  | missingFormatter (name : String)
  deriving DecidableEq, Repr

/-- The text of an error. -/
def RegistryError.message : RegistryError → Text
  | .emptyId => "registered id must not be empty".toList
  | .duplicateId id => "'".toList ++ id.toList ++ "' is already registered".toList
  | .missingFormatter name =>
    "no formatter named '".toList ++ name.toList ++ "' is registered".toList

/-- Whether an id consists of white space only. -/
def isBlankId (id : String) : Bool := Text.isBlank id.toList

/-- The formatters in the increasing order of their names. -/
structure FormatterRegistry where
  formatters : List Formatter := []

namespace FormatterRegistry

/-- The names in increasing order. -/
def names (r : FormatterRegistry) : List String := r.formatters.map Formatter.name

/-- The formatter with a name. -/
def find? (r : FormatterRegistry) (name : String) : Option Formatter :=
  r.formatters.find? fun f => f.name == name

/-- The formatter with a name, which must be stored. -/
def get (r : FormatterRegistry) (name : String) : Except RegistryError Formatter :=
  match r.find? name with
  | some f => pure f
  | none => throw (.missingFormatter name)

/-- Puts a formatter in front of the first one with a larger name. -/
def insertSorted (f : Formatter) : List Formatter → List Formatter
  | [] => [f]
  | g :: gs => if f.name < g.name then f :: g :: gs else g :: insertSorted f gs

/-- Adds a formatter; its name must not be blank, nor stored already. -/
def register (r : FormatterRegistry) (f : Formatter) : Except RegistryError FormatterRegistry :=
  if isBlankId f.name then throw .emptyId
  else if (r.find? f.name).isSome then throw (.duplicateId f.name)
  else pure ⟨insertSorted f r.formatters⟩

/-- Exchanges the formatter that is stored under a name. -/
def replace (r : FormatterRegistry) (f : Formatter) : Except RegistryError FormatterRegistry :=
  if (r.find? f.name).isSome then
    pure ⟨r.formatters.map fun g => if g.name == f.name then f else g⟩
  else throw (.missingFormatter f.name)

end FormatterRegistry

end Snippet

import Snippet.Decimal.Shortest
import Snippet.Text.Basic

/-!
# Configuration

The settings of the program with their defaults, and the check that they are usable. The first
setting that is out of its range is reported, in the order rate, precision, search address,
disabled detectors.
-/

namespace Snippet

/-- The ids of the standard detectors, in the order in which they run. -/
def standardIds : List String :=
  ["date_range", "phone", "rating", "combinations", "arithmetic", "units", "time_calc",
    "navigation"]

/-- The settings of the program. -/
structure Config where
  /-- The template for the result of an arithmetic text. -/
  template : Option Text := none
  /-- The dollars paid for a week of rating. -/
  weeklyRate : Float := 290.0
  /-- The decimal places of a converted value. -/
  precision : Nat := 4
  /-- Whether text that nothing else matches is opened or searched for. -/
  navigationEnabled : Bool := true
  /-- The address of the web search, with a placeholder for the query. -/
  searchUrl : Text := "https://www.google.com/search?q=$\x7bquery\x7d".toList
  /-- The longest text that is searched for. -/
  maxSearchLength : Nat := 200
  /-- The standard detectors that are left out. -/
  disabled : List String := []

/-- Why a configuration is not usable. -/
inductive ConfigError where
  | invalidWeeklyRate (rate : Float)
  | precisionTooLarge (got : Nat)
  | searchUrlMissingQuery (url : Text)
  | unknownDetector (id : String)

namespace Config

/-- The largest precision. -/
def maxPrecision : Nat := 10

/-- The placeholder that a search address must have. -/
def queryPlaceholder : Text := "$\x7bquery\x7d".toList

/-- Whether a standard detector is left out. -/
def isDisabled (c : Config) (id : String) : Bool := c.disabled.contains id

/-- Checks that the settings are in their ranges. -/
def validate (c : Config) : Except ConfigError Unit :=
  if !c.weeklyRate.isFinite || c.weeklyRate ≤ 0.0 then throw (.invalidWeeklyRate c.weeklyRate)
  else if maxPrecision < c.precision then throw (.precisionTooLarge c.precision)
  else if !Text.hasPhrase queryPlaceholder c.searchUrl then
    throw (.searchUrlMissingQuery c.searchUrl)
  else
    match c.disabled.find? fun id => !standardIds.contains id with
    | some id => throw (.unknownDetector id)
    | none => pure ()

end Config

/-- The text of an error. -/
def ConfigError.message : ConfigError → Text
  | .invalidWeeklyRate rate =>
    "rating.weekly_rate must be a positive finite number, got ".toList ++ Decimal.shortest rate
  | .precisionTooLarge got =>
    "units.precision must be at most ".toList ++ Decimal.digitsOf Config.maxPrecision ++
      ", got ".toList ++ Decimal.digitsOf got
  | .searchUrlMissingQuery url =>
    "navigation.search_url must contain the $\x7bquery\x7d placeholder: ".toList ++ url
  | .unknownDetector id =>
    "detectors.disabled names an unknown detector: ".toList ++ id.toList

end Snippet

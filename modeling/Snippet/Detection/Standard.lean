import Snippet.Arithmetic.Formatter
import Snippet.Calendar.DateRange
import Snippet.Clock.Detector
import Snippet.Combination
import Snippet.Detection.Registry
import Snippet.Phone
import Snippet.Rating.Detector
import Snippet.Unit.Detector

/-!
# The standard detectors and formatters

Two of the standard detectors run a formatter of the registry, so that a host may exchange it; the
others are fixed.
-/

namespace Snippet

/-- A detector that runs a formatter on the texts that the formatter is for. -/
def Formatter.toDetector (f : Formatter) (id : String) (priority : Int) : Detector where
  id := id
  priority := priority
  detect ctx t :=
    pure (if f.isCandidate ctx.settings t then .ofOption (f.process ctx.settings t) else .noMatch)

namespace Detector

/-- The detector of date ranges that runs a given formatter. -/
def dateRange (f : Formatter) : Detector := f.toDetector "date_range" 10

/-- The detector of arithmetic texts that runs a given formatter. -/
def arithmetic (f : Formatter) : Detector := f.toDetector "arithmetic" 50

/-- The standard detectors, in the order in which they run, with the formatters for date ranges and
for arithmetic. -/
def standard (dateRangeFormatter arithmeticFormatter : Formatter) : List Detector :=
  [dateRange dateRangeFormatter, Phone.detector, Rating.detector, Combination.detector,
    arithmetic arithmeticFormatter, Unit.detector, Clock.detector, Navigation.detector]

/-- The standard detectors have the standard ids, whatever formatters they run. -/
theorem ids_standard (f g : Formatter) : (standard f g).map Detector.id = standardIds := rfl

end Detector

/-- The priorities of the standard detectors. -/
def standardPriorities : List Int :=
  (Detector.standard DateRange.formatter Arithmetic.formatter).map Detector.priority

/-- The registry with the standard formatters. -/
def FormatterRegistry.standard : Except RegistryError FormatterRegistry := do
  let r ← FormatterRegistry.register {} Arithmetic.formatter
  r.register DateRange.formatter

/-- The registry with the standard detectors that a configuration does not leave out. The formatters
must be stored even where their detectors are left out. -/
def DetectorRegistry.standard (formatters : FormatterRegistry) (config : Config) :
    Except RegistryError DetectorRegistry := do
  let dateRange ← formatters.get "date_range"
  let arithmetic ← formatters.get "arithmetic"
  let kept := (Detector.standard dateRange arithmetic).filter fun d => !config.isDisabled d.id
  kept.foldlM register {}

end Snippet

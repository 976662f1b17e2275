import Snippet.Detection.Standard
import Snippet.Seed

/-!
# The pipeline

A pipeline takes a text through the detectors. If the text has a lead, the seed alone is tried
first; if nothing matches it, the whole text is. The first match replaces what was tried; the lead
and the surrounding white space stay.
-/

namespace Snippet

/-- What the host receives for a text. -/
structure Output where
  text : Text
  changed : Bool
  matchedId : Option String
  effect : Option SideEffect
  log : List MatchRecord
  deriving DecidableEq

namespace Output

/-- The output for a text that stays as it is and matches nothing. -/
def unchanged (raw : Text) : Output := ⟨raw, false, none, none, []⟩

/-- The output of a dispatch. -/
def ofDispatch (raw text : Text) (r : DispatchResult) : Output :=
  ⟨text, text != raw, r.matchedId, r.effect, r.log⟩

end Output

/-- Why a pipeline cannot be built. -/
inductive PipelineError where
  | config (e : ConfigError)
  | registry (e : RegistryError)

/-- The text of an error. -/
def PipelineError.message : PipelineError → Text
  | .config e => e.message
  | .registry e => e.message

/-- Detectors with what they depend on. -/
structure Pipeline where
  config : Config
  formatters : FormatterRegistry
  detectors : DetectorRegistry
  ratings : RatingTable
  /-- The date that missing years are taken from. -/
  today : Date

namespace Pipeline

/-- The pipeline with the standard detectors over given formatters. -/
def withFormatters (config : Config) (formatters : FormatterRegistry) (today : Date) :
    Except PipelineError Pipeline := do
  config.validate.mapError .config
  let detectors ← (DetectorRegistry.standard formatters config).mapError .registry
  return ⟨config, formatters, detectors, .standard, today⟩

/-- The standard pipeline. -/
def standard (config : Config) (today : Date) : Except PipelineError Pipeline := do
  let formatters ← FormatterRegistry.standard.mapError .registry
  withFormatters config formatters today

/-- The pipeline with a further detector. -/
def withDetector (p : Pipeline) (d : Detector) : Except RegistryError Pipeline := do
  return { p with detectors := ← p.detectors.register d }

/-- The pipeline with another rating table. -/
def withRatings (p : Pipeline) (ratings : RatingTable) : Pipeline := { p with ratings }

/-- The pipeline at another date. -/
def withToday (p : Pipeline) (today : Date) : Pipeline := { p with today }

/-- Runs every detector on a text. -/
def dispatch (p : Pipeline) (scope : Scope) (t : Text) : DispatchResult :=
  p.detectors.dispatch ⟨p.config, p.ratings, p.today, scope, []⟩ t

/-- The dispatch on the seed, where there is a lead and something matches, with that lead. -/
def seedMatch? (p : Pipeline) (body : Text) : Option (Text × Text × DispatchResult) :=
  let seed := Seed.ofText body
  if seed.lead.isEmpty then none
  else
    let result := p.dispatch .seed seed.body
    result.primary.map fun primary => (seed.lead, primary, result)

/-- Takes a text through the pipeline. -/
def process (p : Pipeline) (raw : Text) : Output :=
  let body := Text.trim raw
  if body.isEmpty then .unchanged raw
  else
    let around := fun (t : Text) => Text.leadingWhite raw ++ t ++ Text.trailingWhite raw
    match p.seedMatch? body with
    | some (lead, primary, result) => .ofDispatch raw (around (lead ++ primary)) result
    | none =>
      let result := p.dispatch .whole body
      .ofDispatch raw ((result.primary.map around).getD raw) result

/-- Feeds the text of each output back, for at most `rounds` rounds and until a text stays as it is.
The outputs are listed in order. -/
def settle (p : Pipeline) : (rounds : Nat) → Text → List Output
  | 0, _ => []
  | rounds + 1, t =>
    let out := p.process t
    if out.changed then out :: p.settle rounds out.text else [out]

end Pipeline

end Snippet

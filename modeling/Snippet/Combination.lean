import Snippet.Decimal.Fixed
import Snippet.Detection.Outcome
import Snippet.Pattern.Catalog

/-!
# Combined values

Percentages joined by the letter c, as `50c30c20`, are combined: beginning with the largest, each is
applied to what the ones before have left.
-/

namespace Snippet.Combination

/-- Applies a percentage to what is left beside a fraction. -/
def addValue (running percentage : Float) : Float :=
  running + (percentage / 100.0) * (1.0 - running)

/-- The percentages, the largest first. -/
def largestFirst (percentages : List Float) : List Float :=
  percentages.mergeSort fun a b => Decimal.orderKey b ≤ Decimal.orderKey a

/-- The combined fraction of percentages. -/
def combine (percentages : List Float) : Float := (largestFirst percentages).foldl addValue 0.0

/-- The percentages in a text of the combination shape, if all can be read and none is above 100. -/
def percentages? (t : Text) : Option (List Float) :=
  (Pattern.decimal.findAll t).mapM fun m =>
    (Decimal.float? (m.text t)).filter fun x => !(100.0 < x)

/-- The combined value as a whole percentage. -/
def describe (percentages : List Float) : Text :=
  Decimal.fixed (Decimal.roundAway (combine percentages * 100.0)) 0 ++ "% combined".toList

/-- The combined value of a text of at least two percentages. -/
def detect (t : Text) : Outcome :=
  let body := Text.trim t
  if Pattern.combination.matchesAll body then
    match percentages? body with
    | some percentages =>
      if 2 ≤ percentages.length then .text (describe percentages) else .noMatch
    | none => .noMatch
  else .noMatch

/-- The detector of combined values. -/
def detector : Detector := ⟨"combinations", 40, fun _ t => pure (detect t)⟩

end Snippet.Combination

import Snippet.Detection.Outcome
import Snippet.Number.Display
import Snippet.Unit.Measure

/-!
# Unit conversions

A text like `5 km to mi` is replaced by the value in the second unit, under the name by which the
text calls it.
-/

namespace Snippet.Unit

/-- The parts of a conversion text: the value, the unit and the unit to convert to. -/
def parts? (t : Text) : Option (Text × Text × Text) := do
  let m ← Pattern.unitConversion.full? t
  return (← m.text? t 1, ← m.text? t 2, ← m.text? t 3)

/-- The value that a conversion text asks for, if the units are known and of one category. -/
def converted? (value source target : Text) : Option Float := do
  let x ← Decimal.float? (← Number.normalize? value)
  let y ← Measure.convert? x (← Measure.lookup? source) (← Measure.lookup? target)
  if y.isFinite then some y else none

/-- The converted value that a text asks for, with the unit as the text calls it. -/
def conversion? (t : Text) : Option (Float × Text) := do
  let (value, source, target) ← parts? (Text.trim t)
  return (← converted? value source target, Text.trim target)

/-- The most decimal places that a value is written with. -/
def maxPlaces : Nat := 2 ^ 16 - 1

/-- The detector of unit conversions. It breaks off where the value should be written with too many
places. -/
def detector : Detector where
  id := "units"
  priority := 60
  detect ctx t :=
    match conversion? t with
    | none => pure .noMatch
    | some (x, name) =>
      let places := ctx.config.precision
      if places ≤ maxPlaces then pure (.text (Number.decimalText x places ++ ' ' :: name))
      else throw .aborted

end Snippet.Unit

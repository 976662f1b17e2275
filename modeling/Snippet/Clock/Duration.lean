import Snippet.Decimal.Numeral
import Snippet.Pattern.Catalog

/-!
# Durations

A duration is written like a clock, as hours, minutes and perhaps seconds, or as a list of numbers
with units of time, between which only white space, commas and the word "and" may stand. It is a
whole number of seconds below `2 ^ 63`.
-/

namespace Snippet.Duration

/-- What the number of seconds stays below. -/
def bound : Nat := 2 ^ 63

/-- The seconds of a unit of time. -/
def unitSeconds? (name : Text) : Option Float :=
  let name := String.ofList (Text.lower name)
  if ["d", "day", "days"].contains name then some 86400.0
  else if ["h", "hr", "hrs", "hour", "hours"].contains name then some 3600.0
  else if ["m", "min", "mins", "minute", "minutes"].contains name then some 60.0
  else if ["s", "sec", "secs", "second", "seconds"].contains name then some 1.0
  else none

/-- A part that need not be written, as zero. -/
def optionalPart? : Option Text → Option Nat
  | none => some 0
  | some digits => Decimal.nat? digits

/-- The seconds of a duration that is written like a clock. -/
def ofClock? (t : Text) (m : Match) : Option Nat := do
  let hours ← Decimal.nat? (← m.text? t 1)
  let minutes ← Decimal.nat? (← m.text? t 2)
  let seconds ← optionalPart? (m.text? t 3)
  let total := 3600 * hours + 60 * minutes + seconds
  if minutes < 60 && seconds < 60 && total < bound then some total else none

/-- The seconds of a number with its unit. -/
def partSeconds? (part : Text) : Option Float := do
  let m ← Pattern.durationPart.full? part
  let x ← Decimal.float? (← m.text? part 1)
  let y ← unitSeconds? (← m.text? part 2)
  return x * y

/-- What is left of a text when the given matches are taken out. -/
def leftover (t : Text) (parts : List Match) : Text := Match.replaceFrom (fun _ => []) t 0 parts

/-- Whether a text has only white space, commas and the word "and". -/
def isFiller (t : Text) : Bool :=
  (Text.wordsWhere (fun c => Text.isWhite c || c == ',') t).all fun w =>
    Text.eqIgnoringCase w "and".toList

/-- A number of seconds to the nearest whole one, if it is below the bound. -/
def wholeSeconds? (x : Float) : Option Nat := do
  let b ← Binary.ofFloat? x
  let (num, den) := b.scaled 0
  let n := divHalfUp num den
  if n < bound then some n else none

/-- The seconds of a list of numbers with their units. -/
def ofParts? (t : Text) : Option Nat := do
  let parts := Pattern.durationPart.findAll t
  let total ← parts.foldlM (fun sum m => (partSeconds? (m.text t)).map (sum + ·)) 0.0
  if parts.isEmpty || !isFiller (leftover t parts) then none else wholeSeconds? total

/-- The seconds of a written duration. -/
def seconds? (t : Text) : Option Nat :=
  let body := Text.trim t
  match Pattern.durationClock.full? body with
  | some m => ofClock? body m
  | none => ofParts? body

end Snippet.Duration

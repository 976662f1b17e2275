import Snippet.Clock.Duration
import Snippet.Clock.Time
import Snippet.Detection.Outcome

/-!
# Calculations with times

A time of day, a sign and a duration, as `3:30pm + 2h 15m`, are replaced by the later or earlier
time, in the style of the time that was written.
-/

namespace Snippet.Clock

/-- The longest duration that a time can be moved by: one whose milliseconds are below `2 ^ 63`. -/
def longestShift : Nat := (2 ^ 63 - 1) / 1000

/-- The parts of a calculation: the time, the sign and the duration. -/
def parts? (t : Text) : Option (Text × Text × Text) := do
  let m ← Pattern.timeCalc.full? t
  return (← m.text? t 1, ← m.text? t 2, ← m.text? t 3)

/-- The replacement of a calculation. -/
def answer? (t : Text) : Option Text := do
  let (time, sign, duration) ← parts? (Text.trim t)
  let reading ← ClockReading.ofText? time
  let seconds ← Duration.seconds? duration
  if longestShift < seconds then none
  else
    let shift : Int := if sign = ['-'] then -(seconds : Int) else seconds
    return reading.render (reading.time.shift shift)

/-- The detector of calculations with times. -/
def detector : Detector := ⟨"time_calc", 70, fun _ t => pure (.ofOption (answer? t))⟩

end Snippet.Clock

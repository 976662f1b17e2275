import Snippet.Decimal.Numeral
import Snippet.Pattern.Catalog

/-!
# Times of day

A time of day is its number of seconds since midnight. A reading of a clock is a time together with
the style in which it was written, so that another time can be shown in the same style.
-/

namespace Snippet

/-- The seconds of a day. -/
def daySeconds : Nat := 86400

/-- A time of day, by the seconds since midnight. -/
structure Time where
  seconds : Nat
  isLt : seconds < daySeconds
  deriving DecidableEq

namespace Time

/-- The time with a given hour, minute and second, if there is one. -/
def of? (hour minute second : Nat) : Option Time :=
  if h : hour < 24 ∧ minute < 60 ∧ second < 60 then
    some ⟨3600 * hour + 60 * minute + second, by simp only [daySeconds]; omega⟩
  else none

/-- The hour. -/
def hour (t : Time) : Nat := t.seconds / 3600

/-- The minute of the hour. -/
def minute (t : Time) : Nat := t.seconds / 60 % 60

/-- The second of the minute. -/
def second (t : Time) : Nat := t.seconds % 60

/-- The time some seconds later or, where that number is negative, earlier, on whatever day. -/
def shift (t : Time) (offset : Int) : Time :=
  ⟨((t.seconds + offset) % (daySeconds : Int)).toNat, by simp only [daySeconds]; omega⟩

end Time

/-- A time with the style in which it was written. -/
structure ClockReading where
  time : Time
  /-- Whether hours go up to twelve, with a mark for the half of the day. -/
  twelveHour : Bool
  withSeconds : Bool
  deriving DecidableEq

namespace ClockReading

/-- A time in the style of a reading. -/
def render (r : ClockReading) (t : Time) : Text :=
  let minutes := ':' :: Decimal.padded 2 t.minute
  let seconds := if r.withSeconds then ':' :: Decimal.padded 2 t.second else []
  if r.twelveHour then
    let hour := if t.hour % 12 = 0 then 12 else t.hour % 12
    let half := if t.hour < 12 then " AM" else " PM"
    Decimal.digitsOf hour ++ minutes ++ seconds ++ half.toList
  else Decimal.padded 2 t.hour ++ minutes ++ seconds

/-- A part that need not be written. -/
def optionalPart? : Option Text → Option (Option Nat)
  | none => some none
  | some digits => (Decimal.nat? digits).map some

/-- The hour of the day for an hour as it is written before a mark, which is that of the second half
if `isPm`. -/
def hourOfHalf? (hour : Nat) (isPm : Bool) : Option Nat :=
  if 1 ≤ hour && hour ≤ 12 then some (hour % 12 + if isPm then 12 else 0) else none

/-- The reading of a written time. An hour alone needs a mark for the half of the day. -/
def ofText? (t : Text) : Option ClockReading := do
  let body := Text.trim t
  let m ← Pattern.timeOfDay.full? body
  let hour ← Decimal.nat? (← m.text? body 1)
  let minute ← optionalPart? (m.text? body 2)
  let second ← optionalPart? (m.text? body 3)
  let half := (m.text? body 4).map fun letter => Text.eqIgnoringCase letter ['p']
  if minute.isNone && half.isNone then none
  else
    let hour ← match half with
      | some isPm => hourOfHalf? hour isPm
      | none => some hour
    let time ← Time.of? hour (minute.getD 0) (second.getD 0)
    return ⟨time, half.isSome, second.isSome⟩

end ClockReading

end Snippet

import Snippet.Calendar.DateToken
import Snippet.Formatter

/-!
# Date ranges

Two dates with a dash or a word like "to" in the text make up a range. A year that is missing is
taken from the other date, or from today, and moved by one where the range would end before it
starts; two dates that are still in the wrong order are exchanged.
-/

namespace Snippet

/-- The days from one date to another. -/
structure DateRange where
  start : Date
  stop : Date
  deriving DecidableEq

namespace DateRange

/-- The number of days of a range, its last day included. -/
def days (r : DateRange) : Int := ((r.stop.dayNumber - r.start.dayNumber).natAbs : Int) + 1

/-- The text of an integer. -/
def intText (n : Int) : Text :=
  if n < 0 then '-' :: Decimal.digitsOf n.natAbs else Decimal.digitsOf n.natAbs

/-- The text of a range: its two dates and its number of days. -/
def describe (r : DateRange) : Text :=
  r.start.slashed ++ " to ".toList ++ r.stop.slashed ++ ", ".toList ++ intText r.days ++
    " days".toList

/-- The words that stand between the dates of a range. -/
def cueWords : List Text :=
  [" to ".toList, " and ".toList, " through ".toList, " thru ".toList]

/-- A hyphen, an en dash or an em dash. -/
def isDash (c : Char) : Bool := c == '-' || c == '–' || c == '—'

/-- Whether a text has a dash or a word that joins two dates. No letter beyond ASCII has a letter of
these words as its small letter. -/
def hasCue (t : Text) : Bool :=
  cueWords.any (fun w => Text.hasPhrase w (Text.lower t)) || t.any isDash

/-- The parts of the tokens of a text that can be read as dates. -/
def parts (today : Date) (t : Text) : List DateParts :=
  (DateToken.all t).filterMap fun token => DateParts.ofToken? today token.text

/-- Fills in missing years, from the other date or from today. -/
def fillYears (today : Date) (a b : DateParts) : DateParts × DateParts :=
  match a.year, b.year with
  | some _, some _ => (a, b)
  | some y, none => (a, b.inYear y)
  | none, some y => (a.inYear y, b)
  | none, none => (a.inYear today.year, b.inYear today.year)

/-- The date of the parts in the year that lies `years` after theirs, if there is one, and else the
given date. -/
def moved (p : DateParts) (years : Int) (date : Date) : Date :=
  ((p.year.bind fun y => (p.inYear (y + years)).toDate?)).getD date

/-- The range between two written dates, which have their years. -/
def resolve? (a b : DateParts) : Option DateRange := do
  let start ← a.toDate?
  let stop ← b.toDate?
  let (start, stop) :=
    if stop.isBefore start then
      if b.yearInferred then (start, moved b 1 stop)
      else if a.yearInferred then (moved a (-1) start, stop)
      else (start, stop)
    else (start, stop)
  return if stop.isBefore start then ⟨stop, start⟩ else ⟨start, stop⟩

/-- The range between the first two dates of a text with a cue. -/
def ofText? (today : Date) (t : Text) : Option DateRange :=
  if hasCue t then
    match parts today t with
    | a :: b :: _ =>
      let (a, b) := fillYears today a b
      resolve? a b
    | _ => none
  else none

/-- Whether a text has a cue and two dates. -/
def isCandidate (today : Date) (t : Text) : Bool := hasCue t && 2 ≤ (parts today t).length

/-- The formatter of date ranges. -/
def formatter : Formatter where
  name := "date_range"
  isCandidate settings t := isCandidate settings.today t
  process settings t := (ofText? settings.today t).map describe

end DateRange

end Snippet

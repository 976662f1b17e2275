import Snippet.Calendar.Date
import Snippet.Pattern.Catalog

/-!
# Dates in texts

A date token is a stretch of a text that is shaped like a date. Tokens are found by three patterns;
of overlapping ones the first is kept, and of those that start together the longest. The parts of a
token are its month, its day and perhaps its year; a year of two digits is one of the century of
today, or of the century before if it would lie more than thirty years ahead.
-/

namespace Snippet

/-- A stretch of a text that is shaped like a date. -/
structure DateToken where
  span : Span
  text : Text
  deriving DecidableEq, Repr

namespace DateToken

/-- Punctuation that does not belong to a date at its edge. -/
def isEdgePunctuation (c : Char) : Bool := ",;:()[]\x7b\x7d\"'.".toList.contains c

/-- Whether a text goes on with a point or comma and then a digit. -/
def joinsNumber : Text → Bool
  | p :: d :: _ => (p == '.' || p == ',') && d.isDigit
  | _ => false

/-- Whether a stretch is glued to a number with a fraction, as in `12.5/10`. -/
def isInsideNumber (t : Text) (s : Span) : Bool :=
  joinsNumber (t.take s.start).reverse || joinsNumber (t.drop s.stop)

/-- The token in a match: the match without punctuation at its edges, if that leaves something
which is not part of a number. -/
def ofMatch? (t : Text) (m : Match) : Option DateToken :=
  let raw := m.text t
  let trimmed := raw.dropWhile isEdgePunctuation
  let token := Text.dropWhileEnd isEdgePunctuation trimmed
  let start := m.span.start + (raw.length - trimmed.length)
  let span : Span := ⟨start, start + token.length⟩
  if token.isEmpty || isInsideNumber t span then none else some ⟨span, token⟩

/-- Whether a token is considered before another: it starts earlier, or at the same place and is
not shorter. -/
def comesFirst (a b : DateToken) : Bool :=
  a.span.start < b.span.start || (a.span.start == b.span.start && b.span.stop ≤ a.span.stop)

/-- Drops the tokens that start before the end of one that is kept before them. -/
def dropOverlaps : (stop : Nat) → List DateToken → List DateToken
  | _, [] => []
  | stop, a :: rest =>
    if a.span.start < stop then dropOverlaps stop rest else a :: dropOverlaps a.span.stop rest

/-- All stretches of a text that are shaped like dates, overlapping ones included. -/
def candidates (t : Text) : List DateToken :=
  [Pattern.dateTokenIso, Pattern.dateToken, Pattern.dateTokenText].flatMap fun p =>
    (p.findAll t).filterMap (ofMatch? t)

/-- The date tokens of a text, in their order. -/
def all (t : Text) : List DateToken := dropOverlaps 0 ((candidates t).mergeSort comesFirst)

end DateToken

/-- The parts of a written date. -/
structure DateParts where
  month : Nat
  day : Nat
  year : Option Int
  /-- Whether the year was not written but taken from elsewhere. -/
  yearInferred : Bool := false
  deriving DecidableEq, Repr

namespace DateParts

/-- The date with these parts, if the year is known and there is one. -/
def toDate? (p : DateParts) : Option Date := p.year.bind fun y => Date.of? y p.month p.day

/-- The same month and day in a year that was not written. -/
def inYear (p : DateParts) (year : Int) : DateParts :=
  { p with year := some year, yearInferred := true }

/-- How many years from now a year of two digits may lie. -/
def centuryWindow : Int := 30

/-- The year that two digits stand for. -/
def expandYear (today : Date) (twoDigits : Int) : Int :=
  let year := Int.tdiv today.year 100 * 100 + twoDigits
  if today.year + centuryWindow < year then year - 100 else year

/-- The number of a month, told by the first three letters of its name. -/
def monthNumber? (name : Text) : Option Nat :=
  ["jan", "feb", "mar", "apr", "may", "jun", "jul", "aug", "sep", "oct", "nov", "dec"].idxOf?
    (String.ofList (Text.lower (name.take 3))) |>.map (· + 1)

/-- The parts with a month and a day that occur in some year. -/
def of? (month day : Nat) (year : Option Int) : Option DateParts :=
  if 1 ≤ month && month ≤ 12 && 1 ≤ day && day ≤ 31 then some ⟨month, day, year, false⟩ else none

/-- The year that digits write; two digits stand for a year of a century near today. -/
def year? (today : Date) (digits : Text) : Option Int :=
  (Decimal.nat? digits).map fun n => if digits.length = 2 then expandYear today n else n

/-- A year that need not be written. -/
def optionalYear? : Option Text → Option (Option Int)
  | none => some none
  | some digits => (Decimal.nat? digits).map fun n => some (n : Int)

/-- The parts of a token that starts with the year. -/
def ofIso? (t : Text) (m : Match) : Option DateParts := do
  let [year, month, day] ← m.alternative? t 3 3 | none
  of? (← Decimal.nat? month) (← Decimal.nat? day) (some (← Decimal.nat? year))

/-- The parts of a token that starts with the month and ends with the year. -/
def ofMdy? (today : Date) (t : Text) (m : Match) : Option DateParts := do
  let [month, day, year] ← m.alternative? t 3 3 | none
  of? (← Decimal.nat? month) (← Decimal.nat? day) (some (← year? today year))

/-- The parts of a token without a year. -/
def ofMd? (t : Text) (m : Match) : Option DateParts := do
  of? (← Decimal.nat? (← m.text? t 1)) (← Decimal.nat? (← m.text? t 2)) none

/-- The parts of a token with the name of the month in group `month` and the day in group `day`. -/
def ofNamed? (t : Text) (m : Match) (month day : Nat) : Option DateParts := do
  let year ← optionalYear? (m.text? t 3)
  of? (← monthNumber? (← m.text? t month)) (← Decimal.nat? (← m.text? t day)) year

/-- The parts of a date token. The first shape that the token has decides. -/
def ofToken? (today : Date) (t : Text) : Option DateParts :=
  match Pattern.datePartIso.full? t with
  | some m => ofIso? t m
  | none =>
    match Pattern.datePartMdy.full? t with
    | some m => ofMdy? today t m
    | none =>
      match Pattern.datePartMd.full? t with
      | some m => ofMd? t m
      | none =>
        match Pattern.datePartMonthDay.full? t with
        | some m => ofNamed? t m 1 2
        | none =>
          match Pattern.datePartDayMonth.full? t with
          | some m => ofNamed? t m 2 1
          | none => none

end DateParts

end Snippet

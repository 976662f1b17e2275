import Snippet.Pattern.Build
import Snippet.Pattern.Search

/-!
# The catalog of patterns

The shapes of text that the detectors look for, each under a name. A shape that is recognised as a
whole and one that is searched for are the same pattern: `Pattern.full?` and `Pattern.find?` read it
in these two ways.
-/

namespace Snippet.Pattern

open Regex

/-! ## Arithmetic -/

/-- The characters an arithmetic text may consist of. -/
def isArithmetic (c : Char) : Bool :=
  Text.isDigit c || Text.isWhite c || "$.,()+-*/%^".toList.contains c

/-- The characters of a run that may be evaluated, with the letter that joins ratings. -/
def isRun (c : Char) : Bool := isArithmetic c || c == 'c' || c == 'C'

/-- The characters that may stand before the first digit. -/
def isArithmeticLead (c : Char) : Bool := Text.isWhite c || "$(.".toList.contains c

/-- Digits with operators, grouping and currency; the word "of" may stand in it once. -/
def arithmeticCandidate : Pattern := .ofRegex <|
  all [many (one isArithmeticLead), opt (charIn ['-', '+']), many (one isArithmeticLead), digit,
    many (one isArithmetic), opt (all [word "of", many1 (one isArithmetic)])]

/-- A run of characters that may be evaluated. -/
def arithmeticRun : Pattern := .ofRegex <| many1 (one isRun)

/-- A run at the end of the text, after white space. -/
def arithmeticTail : Pattern := .ofRegex <| all [many1 white, group 1 (many1 (one isRun)), textEnd]

/-- Digits with points and commas inside. -/
def localizedNumber : Pattern := .ofRegex <|
  alt (all [digit, many (one fun c => Text.isDigit c || c == '.' || c == ','), digit]) digit

/-- Digits with an optional fraction. -/
def decimalNumber : Regex := all [many1 digit, opt (all [char '.', many1 digit])]

/-- A decimal number. -/
def decimal : Pattern := .ofRegex decimalNumber

/-- The shape `x% of y`, without white space. -/
def percentageOf : Pattern := .ofRegex <|
  all [group 1 decimalNumber, char '%', word "of", group 2 decimalNumber]

/-- The shape `y + x%`, without white space. -/
def percentageAdd : Pattern := .ofRegex <|
  all [group 1 decimalNumber, char '+', group 2 decimalNumber, char '%']

/-- The shape `y - x%`, without white space. -/
def percentageSub : Pattern := .ofRegex <|
  all [group 1 decimalNumber, char '-', group 2 decimalNumber, char '%']

/-! ## Dates -/

/-- The separators of a numeric date; one date never mixes them. -/
def dateSeparators : List Char := ['/', '.', '-']

/-- A month or day number. -/
def shortNumber : Regex := timesUpTo digit 1 1

/-- A year of four digits. -/
def fullYear : Regex := times digit 4

/-- A year of four or of two digits. -/
def year : Regex := alt fullYear (times digit 2)

/-- Month, day and year with one separator. -/
def monthDayYear (sep : Char) : Regex :=
  all [shortNumber, char sep, shortNumber, char sep, year]

/-- Year, month and day with one separator. -/
def yearMonthDay (sep : Char) : Regex :=
  all [fullYear, char sep, shortNumber, char sep, shortNumber]

/-- Month and day. -/
def monthDay : Regex := all [shortNumber, char '/', shortNumber]

/-- A word with an optional rest. -/
def stem (w rest : String) : Regex := seq (word w) (opt (word rest))

/-- The names of the months with their abbreviations. -/
def monthName : Regex :=
  anyOf [stem "jan" "uary", stem "feb" "ruary", stem "mar" "ch", stem "apr" "il", word "may",
    stem "jun" "e", stem "jul" "y", stem "aug" "ust",
    seq (word "sep") (opt (stem "t" "ember")), stem "oct" "ober", stem "nov" "ember",
    stem "dec" "ember"]

/-- The ending of an ordinal number. -/
def ordinalEnding : Regex := opt (words ["st", "nd", "rd", "th"])

/-- A year after a written date, read as `y`. -/
def writtenYear (y : Regex) : Regex := opt (all [opt (char ','), many1 white, y])

/-- A numeric date with a year. -/
def dateFull : Pattern := .ofRegex <|
  anyOf (dateSeparators.flatMap fun s => [monthDayYear s, yearMonthDay s])

/-- A word-bounded numeric date that starts with the month. -/
def dateToken : Pattern := .ofRegex <|
  all [wordBoundary, anyOf (dateSeparators.map monthDayYear ++ [monthDay]), wordBoundary]

/-- A word-bounded numeric date that starts with the year. -/
def dateTokenIso : Pattern := .ofRegex <|
  all [wordBoundary, anyOf (dateSeparators.map yearMonthDay), wordBoundary]

/-- A word-bounded date with the name of the month. -/
def dateTokenText : Pattern := .ofRegex <|
  alt
    (all [wordBoundary, monthName, opt (char '.'), many1 white, shortNumber, ordinalEnding,
      writtenYear fullYear, wordBoundary])
    (all [wordBoundary, shortNumber, ordinalEnding, many1 white, monthName, opt (char '.'),
      writtenYear fullYear, wordBoundary])

/-- Year, month and day with one separator, in groups from number `i` on. -/
def isoParts (sep : Char) (i : Nat) : Regex :=
  all [group i fullYear, char sep, group (i + 1) shortNumber, char sep, group (i + 2) shortNumber]

/-- Month, day and year with one separator, in groups from number `i` on. -/
def mdyParts (sep : Char) (i : Nat) : Regex :=
  all [group i shortNumber, char sep, group (i + 1) shortNumber, char sep, group (i + 2) year]

/-- The parts of a numeric date that starts with the year. -/
def datePartIso : Pattern := .ofRegex <| anyOf [isoParts '/' 1, isoParts '.' 4, isoParts '-' 7]

/-- The parts of a numeric date that starts with the month. -/
def datePartMdy : Pattern := .ofRegex <| anyOf [mdyParts '/' 1, mdyParts '.' 4, mdyParts '-' 7]

/-- The parts of a numeric date without a year. -/
def datePartMd : Pattern := .ofRegex <| all [group 1 shortNumber, char '/', group 2 shortNumber]

/-- The parts of a date that starts with the name of the month. -/
def datePartMonthDay : Pattern := .ofRegex <|
  all [group 1 monthName, opt (char '.'), many1 white, group 2 shortNumber, ordinalEnding,
    writtenYear (group 3 fullYear)]

/-- The parts of a date that starts with the day and names the month. -/
def datePartDayMonth : Pattern := .ofRegex <|
  all [group 1 shortNumber, ordinalEnding, many1 white, group 2 monthName, opt (char '.'),
    writtenYear (group 3 fullYear)]

/-! ## Ratings and combinations -/

/-- A rating code: a number after "pd" or "rating", or a percentage. -/
def percentageCode : Pattern := .ofRegex <|
  alt
    (all [words ["pd", "rating"], many white, group 1 (timesUpTo digit 1 2), many white,
      opt (char '%')])
    (all [group 2 (timesUpTo digit 1 2), many white, char '%'])

/-- At least two values joined by the letter c. -/
def combination : Pattern := .ofRegex <|
  all [decimalNumber, many white, opt (char '%'),
    many1 (all [many white, charIn ['c', 'C'], many white, decimalNumber, many white,
      opt (char '%')])]

/-! ## Phone numbers -/

/-- An optional separator inside a phone number. -/
def phoneSeparator : Regex := opt (one fun c => Text.isWhite c || c == '.' || c == '-')

/-- Ten digits, after an optional country code. -/
def phone : Pattern := .ofRegex <|
  all [opt (all [opt (char '+'), char '1', phoneSeparator]), times digit 3, phoneSeparator,
    times digit 3, phoneSeparator, times digit 4]

/-- A phone number with its area code in parentheses. -/
def phoneFormatted : Pattern := .ofRegex <|
  all [char '(', times digit 3, char ')', opt white, times digit 3, char '-', times digit 4]

/-! ## Units -/

/-- The characters a unit name starts with. -/
def isUnitLead (c : Char) : Bool := c.isAlpha || "°µ'\"".toList.contains c

/-- The characters of a unit name. -/
def isUnitChar (c : Char) : Bool := isUnitLead c || c == '.' || c == ' '

/-- A value with an optional minus, commas and a fraction. -/
def unitValue : Regex :=
  alt
    (all [opt (char '-'), digit, many (one fun c => Text.isDigit c || c == ','),
      opt (all [char '.', many1 digit])])
    (all [opt (char '-'), char '.', many1 digit])

/-- A value, its unit, a connective and the unit to convert to. -/
def unitConversion : Pattern := .ofRegex <|
  all [group 1 unitValue, many white, group 2 (seq (one isUnitLead) (few (one isUnitChar))),
    many1 white, words ["to", "into", "in", "as"], many1 white,
    group 3 (seq (one isUnitLead) (many (one isUnitChar)))]

/-! ## Times -/

/-- A part of a clock time after a colon, read as `r`. -/
def clockPart (r : Regex) : Regex := all [char ':', r]

/-- The mark of the half of the day, with its first letter read as `r`. -/
def meridiem (r : Regex) : Regex := opt (all [r, opt (char '.'), letter 'm', opt (char '.')])

/-- The first letter of the mark of the half of the day. -/
def meridiemLetter : Regex := alt (letter 'a') (letter 'p')

/-- A time of day, a sign and what to add or subtract. -/
def timeCalc : Pattern := .ofRegex <|
  all [group 1 (all [shortNumber, upTo (clockPart (times digit 2)) 2, many white,
      meridiem meridiemLetter]),
    many white, group 2 (charIn ['+', '-']), many white,
    group 3 (seq nonwhite (many (one fun c => c != '\n')))]

/-- A time of day with optional minutes, seconds and half of the day. -/
def timeOfDay : Pattern := .ofRegex <|
  all [group 1 shortNumber, opt (clockPart (group 2 (times digit 2))),
    opt (clockPart (group 3 (times digit 2))), many white, meridiem (group 4 meridiemLetter)]

/-- A duration written like a clock time. -/
def durationClock : Pattern := .ofRegex <|
  all [group 1 (many1 digit), clockPart (group 2 (times digit 2)),
    opt (clockPart (group 3 (times digit 2)))]

/-- A number with a unit of time. -/
def durationPart : Pattern := .ofRegex <|
  all [group 1 decimalNumber, many white,
    group 2 (words ["days", "day", "d", "hours", "hour", "hrs", "hr", "h", "minutes", "minute",
      "mins", "min", "m", "seconds", "second", "secs", "sec", "s"])]

/-! ## Navigation -/

/-- An address of the web. -/
def url : Pattern := .ofRegex <|
  all [word "http", opt (letter 's'), chars "://".toList, many1 nonwhite]

/-- An address with any scheme. -/
def appUrl : Pattern := .ofRegex <|
  all [asciiLetter, many (one fun c => c.isAlphanum || c == '+' || c == '.' || c == '-'),
    chars "://".toList, many nonwhite]

/-- A label of a domain name. -/
def domainLabel : Regex :=
  seq asciiAlphanum (opt (seq (many (one fun c => c.isAlphanum || c == '-')) asciiAlphanum))

/-- A domain name with an optional port and path. -/
def domain : Pattern := .ofRegex <|
  all [many1 (seq domainLabel (char '.')), group 1 (seq (times asciiLetter 2) (many asciiLetter)),
    opt (all [char ':', many1 digit]), opt (all [char '/', many nonwhite])]

/-- A path from the home directory, the root or a drive. -/
def filePath : Pattern := .ofRegex <|
  all [anyOf [char '~', char '/', all [asciiLetter, char ':', char '\\']],
    many (one fun c => c != '\n')]

/-! ## The catalog -/

/-- The patterns with their names. -/
def catalog : List (String × Pattern) :=
  [("arithmetic_candidate", arithmeticCandidate),
   ("arithmetic_run", arithmeticRun),
   ("arithmetic_tail", arithmeticTail),
   ("localized_number", localizedNumber),
   ("decimal", decimal),
   ("percentage_of", percentageOf),
   ("percentage_add", percentageAdd),
   ("percentage_sub", percentageSub),
   ("date_full", dateFull),
   ("date_token", dateToken),
   ("date_token_iso", dateTokenIso),
   ("date_token_text", dateTokenText),
   ("date_part_iso", datePartIso),
   ("date_part_mdy", datePartMdy),
   ("date_part_md", datePartMd),
   ("date_part_month_day", datePartMonthDay),
   ("date_part_day_month", datePartDayMonth),
   ("percentage_code", percentageCode),
   ("combination", combination),
   ("phone", phone),
   ("phone_formatted", phoneFormatted),
   ("unit_conversion", unitConversion),
   ("time_calc", timeCalc),
   ("time_of_day", timeOfDay),
   ("duration_clock", durationClock),
   ("duration_part", durationPart),
   ("url", url),
   ("app_url", appUrl),
   ("domain", domain),
   ("file_path", filePath)]

/-- The pattern with a given name. -/
def named? (name : String) : Option Pattern := catalog.lookup name

end Snippet.Pattern
